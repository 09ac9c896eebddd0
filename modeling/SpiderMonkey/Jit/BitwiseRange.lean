import SpiderMonkey.Lib.OptionBind
import Mathlib.Tactic.Positivity
import SpiderMonkey.Jit.Impl.BitwiseRange

/-!
This module contains that the ranges of bitwise operations and shifts include every result, and that they are computed
without counting the leading zeroes of zero.
-/

namespace SpiderMonkey.Range

section

variable {l h v : Int} {x y : BitVec 32} {n : Nat}

theorem log2_natAbs_le (hl : JSVAL_INT_MIN ≤ v) (hh : v ≤ JSVAL_INT_MAX) : v.natAbs.log2 ≤ 31 := by
  rw [JSVAL_INT_MIN] at hl
  rw [JSVAL_INT_MAX] at hh
  have hlt : v.natAbs < 2 ^ 32 := by omega
  by_cases hv : v.natAbs = 0
  . rw [hv]
    decide
  . exact Nat.lt_succ_iff.mp ((Nat.log2_lt hv).mpr hlt)

theorem natAbs_lt_of_log2_le (he : v.natAbs.log2 ≤ e) : v.natAbs < 2 ^ (e + 1) := by
  by_cases hv : v.natAbs = 0
  . rw [hv]
    exact Nat.two_pow_pos _
  . exact (Nat.log2_lt hv).mp (Nat.lt_succ_of_le he)

theorem log2_mono {a b : Nat} (h : a ≤ b) : a.log2 ≤ b.log2 := by
  by_cases ha : a = 0
  . rw [ha]
    exact Nat.zero_le _
  . exact (Nat.le_log2 (by omega)).mpr ((Nat.log2_self_le ha).trans h)

theorem newInt32Range_eq (hl : JSVAL_INT_MIN ≤ l) (hle : l ≤ h) (hh : h ≤ JSVAL_INT_MAX)
    : NewInt32Range l h = ⟨l, h, true, true, false, false, (max l.natAbs h.natAbs).log2⟩ := by
  have hlog : (max l.natAbs h.natAbs).log2 ≤ MaxInt32Exponent := by
    rcases Nat.le_total l.natAbs h.natAbs with hmax | hmax
    . rw [Nat.max_eq_right hmax]
      exact log2_natAbs_le (by omega) hh
    . rw [Nat.max_eq_left hmax]
      exact log2_natAbs_le hl (by omega)
  simp [NewInt32Range, set, setLowerInit, setUpperInit, optimize, optimizeBounds, hasInt32Bounds, exponentImpliedByInt32Bounds, if_neg (show ¬l > JSVAL_INT_MAX by omega), if_neg (show ¬l < JSVAL_INT_MIN by omega), if_neg (show ¬h > JSVAL_INT_MAX by omega), if_neg (show ¬h < JSVAL_INT_MIN by omega), Nat.min_eq_left hlog]

def Between (l h v : Int) : Prop := l ≤ v ∧ v ≤ h

theorem newInt32Range_valid (hl : JSVAL_INT_MIN ≤ l) (hle : l ≤ h) (hh : h ≤ JSVAL_INT_MAX)
    : assertInvariants (NewInt32Range l h) ∧ ∀ v, Between l h v → Contains (NewInt32Range l h) v := by
  have hlog : (max l.natAbs h.natAbs).log2 ≤ MaxFiniteExponent := by
    have hl' := log2_natAbs_le hl (hle.trans hh)
    have hh' := log2_natAbs_le (hl.trans hle) hh
    rw [MaxFiniteExponent]
    rcases Nat.le_total l.natAbs h.natAbs with hmax | hmax
    . rw [Nat.max_eq_right hmax]
      omega
    . rw [Nat.max_eq_left hmax]
      omega
  rw [newInt32Range_eq hl hle hh]
  refine ⟨⟨hl, hh, hle, nofun, nofun, .inl hlog, ?_, ?_, ?_⟩, fun v hv => ⟨fun _ => hv.1, fun _ => hv.2, fun _ => ?_⟩⟩
  . rintro (h | h) <;> cases h
  . exact (log2_mono (Nat.le_max_right ..)).trans (Nat.le_add_right ..)
  . exact (log2_mono (Nat.le_max_left ..)).trans (Nat.le_add_right ..)
  have hmax : v.natAbs ≤ max l.natAbs h.natAbs := by
    obtain ⟨hlv, hvh⟩ := hv
    omega
  exact natAbs_lt_of_log2_le (log2_mono hmax)

theorem newUInt32Range_valid {l h : Nat} (hle : l ≤ h) (hh : h < 2 ^ 32)
    : assertInvariants (NewUInt32Range l h) ∧ ∀ v, Between l h v → Contains (NewUInt32Range l h) v := by
  by_cases hmax : (h : Int) ≤ JSVAL_INT_MAX
  . exact newInt32Range_valid (by rw [JSVAL_INT_MIN]; omega) (by omega) hmax
  have heq : NewUInt32Range l h = ⟨min l JSVAL_INT_MAX, JSVAL_INT_MAX, true, false, false, false, 31⟩ := by
    have hlower : setLowerInit ⟨0, 0, true, true, false, false, 31⟩ l
        = ⟨min l JSVAL_INT_MAX, 0, true, true, false, false, 31⟩ := by
      rw [setLowerInit]
      split
      next hgt => rw [Int.min_eq_right (by omega)]
      next hle => rw [if_neg (by rw [JSVAL_INT_MIN]; omega), Int.min_eq_left (by omega)]
    rw [NewUInt32Range, set]
    dsimp only [MaxUInt32Exponent]
    rw [hlower, setUpperInit, if_pos (by omega)]
    rfl
  have hlog : (min (l : Int) JSVAL_INT_MAX).natAbs.log2 ≤ 31 :=
    log2_natAbs_le (by rw [JSVAL_INT_MIN, JSVAL_INT_MAX]; omega) (Int.min_le_right ..)
  rw [heq]
  refine ⟨⟨?_, Int.le_refl _, Int.min_le_right .., nofun, fun _ => rfl, .inl (show 31 ≤ 1023 by decide),
    fun _ => Nat.le_refl _, ?_, hlog⟩, fun v hv => ⟨fun _ => (Int.min_le_left ..).trans hv.1, nofun, fun _ => ?_⟩⟩
  . change JSVAL_INT_MIN ≤ min (l : Int) JSVAL_INT_MAX
    rw [JSVAL_INT_MIN, JSVAL_INT_MAX]
    omega
  . exact log2_natAbs_le (show JSVAL_INT_MIN ≤ JSVAL_INT_MAX by decide) (Int.le_refl _)
  . obtain ⟨hlv, hvh⟩ := hv
    change v.natAbs < 2 ^ 32
    omega

theorem toInt_cases (x : BitVec 32)
    : x.toNat < 2 ^ 31 ∧ x.toInt = x.toNat ∨ 2 ^ 31 ≤ x.toNat ∧ x.toNat < 2 ^ 32 ∧ x.toInt = x.toNat - 2 ^ 32 := by
  have hcond := BitVec.toInt_eq_toNat_cond x
  split at hcond <;> omega

theorem toInt_uint32 (hl : JSVAL_INT_MIN ≤ v) (hh : v ≤ JSVAL_INT_MAX) : (uint32 v).toInt = v := by
  rw [JSVAL_INT_MIN] at hl
  rw [JSVAL_INT_MAX] at hh
  have hnat : (uint32 v).toNat = (v % 2 ^ 32).toNat := BitVec.toNat_ofInt v
  have hcases := toInt_cases (uint32 v)
  omega

theorem not_eq (v : Int) : ~~~v = -v - 1 := by
  cases v with
  | ofNat n =>
    change Int.negSucc n = -(n : Int) - 1
    omega
  | negSucc n =>
    change (n : Int) = _
    omega

theorem toInt_not (x : BitVec 32) : (~~~x).toInt = ~~~x.toInt := by
  have hnat : (~~~x).toNat = 2 ^ 32 - 1 - x.toNat := BitVec.toNat_not
  have hcases := toInt_cases x
  have hcases' := toInt_cases (~~~x)
  rw [not_eq]
  omega

theorem toInt_mem (x : BitVec 32) : JSVAL_INT_MIN ≤ x.toInt ∧ x.toInt ≤ JSVAL_INT_MAX := by
  have hcases := toInt_cases x
  rw [JSVAL_INT_MIN, JSVAL_INT_MAX]
  omega

theorem toInt_and_of_nonneg (x : BitVec 32) (hy : 0 ≤ y.toInt) : 0 ≤ (x &&& y).toInt ∧ (x &&& y).toInt ≤ y.toInt := by
  have hle : (x &&& y).toNat ≤ y.toNat := by
    exact Nat.and_le_right
  have hcases := toInt_cases y
  have hcases' := toInt_cases (x &&& y)
  omega

theorem toInt_or_of_nonneg (hx : 0 ≤ x.toInt) (hy : 0 ≤ y.toInt)
    : x.toInt ≤ (x ||| y).toInt ∧ y.toInt ≤ (x ||| y).toInt := by
  have hlt : (x ||| y).toNat < 2 ^ 31 := by
    apply Nat.or_lt_two_pow
    . have hcases := toInt_cases x
      omega
    . have hcases := toInt_cases y
      omega
  have hlex : x.toNat ≤ (x ||| y).toNat := by
    exact Nat.left_le_or
  have hley : y.toNat ≤ (x ||| y).toNat := by
    exact Nat.right_le_or
  have hcases := toInt_cases x
  have hcases' := toInt_cases y
  have hcases'' := toInt_cases (x ||| y)
  omega

theorem or_eq_not (x y : BitVec 32) : x ||| y = ~~~(~~~x &&& ~~~y) := by
  rw [BitVec.not_and, BitVec.not_not, BitVec.not_not]

theorem and_eq_not (x y : BitVec 32) : x &&& y = ~~~(~~~x ||| ~~~y) := by
  rw [BitVec.not_or, BitVec.not_not, BitVec.not_not]

theorem toInt_and_of_neg (hx : x.toInt < 0) (hy : y.toInt < 0)
    : (x &&& y).toInt ≤ x.toInt := by
  have hnotx := toInt_not x
  have hnoty := toInt_not y
  rw [not_eq] at hnotx hnoty
  have hle := (toInt_or_of_nonneg (x := ~~~x) (y := ~~~y) (by omega) (by omega)).1
  rw [and_eq_not, toInt_not, not_eq]
  omega

theorem CountLeadingZeroes32_eq (hv : 0 < v) (hmax : v ≤ JSVAL_INT_MAX)
    : ∃ n, CountLeadingZeroes32 (uint32 v) = some n ∧ 1 ≤ n ∧ n ≤ 31 ∧ v < 2 ^ (32 - n) := by
  have hint := toInt_uint32 (v := v) (by rw [JSVAL_INT_MIN]; omega) hmax
  have hcases := toInt_cases (uint32 v)
  have hnat : (uint32 v).toNat = v := by omega
  have hne : (uint32 v).toNat ≠ 0 := by omega
  have hlog : (uint32 v).toNat.log2 < 31 := (Nat.log2_lt hne).mpr (by omega)
  refine ⟨31 - (uint32 v).toNat.log2, ?_, by omega, by omega, ?_⟩
  . rw [CountLeadingZeroes32, if_neg]
    intro heq
    rw [heq] at hne
    exact hne rfl
  have hlt : (uint32 v).toNat < 2 ^ ((uint32 v).toNat.log2 + 1) := Nat.lt_log2_self
  rw [show 32 - (31 - (uint32 v).toNat.log2) = (uint32 v).toNat.log2 + 1 by omega]
  calc v = (uint32 v).toNat := hnat.symm
    _ < ((2 ^ ((uint32 v).toNat.log2 + 1) : Nat) : Int) := Int.ofNat_lt.mpr hlt
    _ = 2 ^ ((uint32 v).toNat.log2 + 1) := by norm_cast

theorem toNat_mask (hn : n ≤ 32) : (UINT32_MAX >>> n).toNat = 2 ^ (32 - n) - 1 := by
  rw [UINT32_MAX, BitVec.toNat_ushiftRight, BitVec.toNat_allOnes, Nat.shiftRight_eq_div_pow]
  have hpow : 2 ^ 32 = 2 ^ (32 - n) * 2 ^ n := by
    rw [← Nat.pow_add, Nat.sub_add_cancel hn]
  have hpos := Nat.two_pow_pos n
  have hpos' := Nat.two_pow_pos (32 - n)
  apply Nat.div_eq_of_lt_le
  . rw [Nat.sub_mul, Nat.one_mul]
    omega
  . rw [Nat.sub_add_cancel hpos']
    omega

theorem toInt_mask (hpos : 1 ≤ n) (hn : n ≤ 32) : (UINT32_MAX >>> n).toInt = 2 ^ (32 - n) - 1 := by
  have hnat := toNat_mask hn
  have hle : 2 ^ (32 - n) ≤ 2 ^ 31 := Nat.pow_le_pow_right (by decide) (by omega)
  have hpow := Nat.two_pow_pos (32 - n)
  have hcases := toInt_cases (UINT32_MAX >>> n)
  have hcast : ((2 ^ (32 - n) : Nat) : Int) = 2 ^ (32 - n) := by norm_cast
  omega

end

section

variable {lhs rhs : Range} {l h : Int} {x y : BitVec 32} {k : Nat}

structure IsInt32Range (r : Range) : Prop where
  valid : r.assertInvariants
  isInt32 : r.isInt32

theorem IsInt32Range.bounds (hr : IsInt32Range lhs) : lhs.hasInt32LowerBound ∧ lhs.hasInt32UpperBound := by
  have hint := hr.isInt32
  rw [Range.isInt32, hasInt32Bounds, Bool.and_eq_true, Bool.and_eq_true, Bool.and_eq_true] at hint
  exact hint.1.1

theorem IsInt32Range.between (hr : IsInt32Range lhs) (hv : lhs.Contains v) : Between lhs.lower lhs.upper v :=
  ⟨hv.lower_le hr.bounds.1, hv.le_upper hr.bounds.2⟩

-- The function has a range, whatever the operands are, and this range includes the results for all values of them.
def Includes (lhs rhs : Range) (range : Option Range) (op : BitVec 32 → BitVec 32 → Int) : Prop :=
  ∃ r, range = some r ∧ r.assertInvariants
    ∧ ∀ x y : BitVec 32, lhs.Contains x.toInt → rhs.Contains y.toInt → r.Contains (op x y)

theorem includes_newInt32Range (hlhs : IsInt32Range lhs) (hrhs : IsInt32Range rhs)
    (hl : JSVAL_INT_MIN ≤ l) (hle : l ≤ h) (hh : h ≤ JSVAL_INT_MAX)
    (hbetween : ∀ x y : BitVec 32, Between lhs.lower lhs.upper x.toInt → Between rhs.lower rhs.upper y.toInt →
      Between l h (op x y))
    : Includes lhs rhs (some (NewInt32Range l h)) op := by
  obtain ⟨hvalid, hcontains⟩ := newInt32Range_valid hl hle hh
  exact ⟨_, rfl, hvalid, fun x y hx hy => hcontains _ (hbetween x y (hlhs.between hx) (hrhs.between hy))⟩

def IncludesUnary (lhs : Range) (range : Option Range) (op : BitVec 32 → Int) : Prop :=
  ∃ r, range = some r ∧ r.assertInvariants ∧ ∀ x : BitVec 32, lhs.Contains x.toInt → r.Contains (op x)

theorem includesUnary_newInt32Range (hlhs : IsInt32Range lhs) (hl : JSVAL_INT_MIN ≤ l) (hle : l ≤ h)
    (hh : h ≤ JSVAL_INT_MAX) (hbetween : ∀ x : BitVec 32, Between lhs.lower lhs.upper x.toInt → Between l h (op x))
    : IncludesUnary lhs (some (NewInt32Range l h)) op := by
  obtain ⟨hvalid, hcontains⟩ := newInt32Range_valid hl hle hh
  exact ⟨_, rfl, hvalid, fun x hx => hcontains _ (hbetween x (hlhs.between hx))⟩

theorem guard_bind {p : Prop} [Decidable p] {α : Type} {f : Unit → Option α} (hp : p)
    : (guard p >>= f) = f () := by
  rw [guard, if_pos hp]
  rfl

theorem and_includes (hlhs : IsInt32Range lhs) (hrhs : IsInt32Range rhs)
    : Includes lhs rhs (and_ lhs rhs) fun x y => (x &&& y).toInt := by
  have hl := hlhs.valid
  have hr := hrhs.valid
  have hlle := hl.lower_le_upper
  have hrle := hr.lower_le_upper
  have hlmax := hl.int32Upper
  have hrmax := hr.int32Upper
  have hmin : JSVAL_INT_MIN ≤ 0 := by decide
  rw [and_, guard_bind ⟨hlhs.isInt32, hrhs.isInt32⟩]
  split
  next hneg =>
    have hlmin := hl.int32Lower
    refine includes_newInt32Range hlhs hrhs (Int.le_refl _) (by omega) (by omega) fun x y hx hy => ?_
    refine ⟨(toInt_mem _).1, ?_⟩
    obtain ⟨_, hxle⟩ := hx
    obtain ⟨_, hyle⟩ := hy
    by_cases hy0 : 0 ≤ y.toInt
    . have hand := (toInt_and_of_nonneg x hy0).2
      omega
    by_cases hx0 : 0 ≤ x.toInt
    . have hand := (toInt_and_of_nonneg y hx0).2
      rw [BitVec.and_comm] at hand
      omega
    . have hand := toInt_and_of_neg (Int.not_le.mp hx0) (Int.not_le.mp hy0)
      omega
  next hneg =>
    have hupper : 0 ≤ (if rhs.lower < 0 then lhs.upper
          else if lhs.lower < 0 then rhs.upper else min lhs.upper rhs.upper)
        ∧ (if rhs.lower < 0 then lhs.upper else if lhs.lower < 0 then rhs.upper else min lhs.upper rhs.upper)
          ≤ JSVAL_INT_MAX := by
      split
      next => omega
      next => split <;> omega
    refine includes_newInt32Range hlhs hrhs hmin hupper.1 hupper.2 fun x y hx hy => ?_
    obtain ⟨hxl, hxle⟩ := hx
    obtain ⟨hyl, hyle⟩ := hy
    have hleft (hx0 : 0 ≤ x.toInt) : 0 ≤ (x &&& y).toInt ∧ (x &&& y).toInt ≤ x.toInt := by
      rw [BitVec.and_comm]
      exact toInt_and_of_nonneg y hx0
    have hright (hy0 : 0 ≤ y.toInt) : 0 ≤ (x &&& y).toInt ∧ (x &&& y).toInt ≤ y.toInt := toInt_and_of_nonneg x hy0
    constructor
    . by_cases hl0 : lhs.lower < 0
      . exact (hright (by omega)).1
      . exact (hleft (by omega)).1
    split
    next hr0 => exact (hleft (by omega)).2.trans hxle
    next hr0 =>
      split
      next => omega
      next =>
        omega

theorem includes_left (hlhs : IsInt32Range lhs)
    (heq : ∀ x y : BitVec 32, lhs.Contains x.toInt → rhs.Contains y.toInt → op x y = x.toInt)
    : Includes lhs rhs (some lhs) op :=
  ⟨lhs, rfl, hlhs.valid, fun x y hx hy => by rw [heq x y hx hy]; exact hx⟩

theorem includes_right (hrhs : IsInt32Range rhs)
    (heq : ∀ x y : BitVec 32, lhs.Contains x.toInt → rhs.Contains y.toInt → op x y = y.toInt)
    : Includes lhs rhs (some rhs) op :=
  ⟨rhs, rfl, hrhs.valid, fun x y hx hy => by rw [heq x y hx hy]; exact hy⟩

theorem eq_of_between (hr : IsInt32Range lhs) (heq : lhs.lower = lhs.upper) (hc : lhs.lower = c.toInt)
    (hx : lhs.Contains x.toInt) : x = c := by
  obtain ⟨hle, hge⟩ := hr.between hx
  exact BitVec.eq_of_toInt_eq (by omega)

theorem or_of_neg (hx : x.toInt < 0) (hpow : -2 ^ k ≤ x.toInt) : -2 ^ k ≤ (x ||| y).toInt ∧ (x ||| y).toInt ≤ -1 := by
  have hnot := toInt_not x
  rw [not_eq] at hnot
  have hand := toInt_and_of_nonneg (y := ~~~x) (~~~y) (by omega)
  rw [BitVec.and_comm] at hand
  rw [or_eq_not, toInt_not, not_eq]
  omega

theorem orLeadingOnes_ok {operand : Range} (hoperand : IsInt32Range operand)
    (hne : operand.upper < 0 → operand.lower ≠ -1) (bounds : Int × Int)
    : operand.upper < 0 ∧ (∃ k ≤ 31, orLeadingOnes operand bounds = some (max bounds.1 (-2 ^ k), -1)
          ∧ -2 ^ k ≤ operand.lower)
      ∨ ¬operand.upper < 0 ∧ orLeadingOnes operand bounds = some bounds := by
  rw [orLeadingOnes]
  split
  next hneg =>
    have hvalid := hoperand.valid
    have hle := hvalid.lower_le_upper
    have hmin := hvalid.int32Lower
    have hint : (uint32 operand.lower).toInt = operand.lower := toInt_uint32 hmin (hle.trans hvalid.int32Upper)
    have hnot : ~~~uint32 operand.lower = uint32 (-operand.lower - 1) := by
      apply BitVec.eq_of_toInt_eq
      rw [toInt_not, hint, not_eq, toInt_uint32 (by rw [JSVAL_INT_MIN]; omega)
        (by rw [JSVAL_INT_MIN] at hmin; rw [JSVAL_INT_MAX]; omega)]
    obtain ⟨n, hn, hpos, hle31, hlt⟩ := CountLeadingZeroes32_eq (v := -operand.lower - 1) (by omega)
      (by rw [JSVAL_INT_MIN] at hmin; rw [JSVAL_INT_MAX]; omega)
    refine .inl ⟨hneg, 32 - n, by omega, ?_, by omega⟩
    rw [hnot, hn, some_bind, toInt_not, toInt_mask hpos (by omega), not_eq]
    simp only [Option.pure_def, Option.some.injEq, Prod.mk.injEq, and_true]
    congr 1
    omega
  next hnonneg => exact .inr ⟨hnonneg, rfl⟩

theorem pow_le_pow_of_le (h : m ≤ n) : (2 : Int) ^ m ≤ 2 ^ n := by
  exact_mod_cast Nat.pow_le_pow_right (show 0 < 2 by decide) h

theorem toInt_or_lt (hx : 0 ≤ x.toInt) (hy : 0 ≤ y.toInt) (hk : k ≤ 31) (hxk : x.toInt < 2 ^ k) (hyk : y.toInt < 2 ^ k)
    : (x ||| y).toInt < 2 ^ k := by
  have hcases := toInt_cases x
  have hcases' := toInt_cases y
  have hlt : (x ||| y).toNat < 2 ^ k := by
    apply Nat.or_lt_two_pow
    . have hxnat : (x.toNat : Int) < 2 ^ k := by omega
      exact_mod_cast hxnat
    . have hynat : (y.toNat : Int) < 2 ^ k := by omega
      exact_mod_cast hynat
  have hpow : 2 ^ k ≤ 2 ^ 31 := Nat.pow_le_pow_right (by decide) hk
  have hcases'' := toInt_cases (x ||| y)
  calc (x ||| y).toInt = (x ||| y).toNat := by omega
    _ < ((2 ^ k : Nat) : Int) := Int.ofNat_lt.mpr hlt
    _ = 2 ^ k := by norm_cast

theorem orBounds_ok (hlhs : IsInt32Range lhs) (hrhs : IsInt32Range rhs)
    (hlhs0 : lhs.lower ≥ 0 → lhs.upper ≠ 0) (hrhs0 : rhs.lower ≥ 0 → rhs.upper ≠ 0)
    (hlhs1 : lhs.upper < 0 → lhs.lower ≠ -1) (hrhs1 : rhs.upper < 0 → rhs.lower ≠ -1)
    : ∃ bounds, orBounds lhs rhs = some bounds ∧ JSVAL_INT_MIN ≤ bounds.1 ∧ bounds.1 ≤ bounds.2
        ∧ bounds.2 ≤ JSVAL_INT_MAX
        ∧ ∀ x y : BitVec 32, Between lhs.lower lhs.upper x.toInt → Between rhs.lower rhs.upper y.toInt →
            Between bounds.1 bounds.2 (x ||| y).toInt := by
  have hl := hlhs.valid.lower_le_upper
  have hr := hrhs.valid.lower_le_upper
  rw [orBounds]
  split
  next hnonneg =>
    obtain ⟨n, hn, hnpos, hnle, hnlt⟩ := CountLeadingZeroes32_eq (v := lhs.upper)
      (by have := hlhs0 hnonneg.1; omega) hlhs.valid.int32Upper
    obtain ⟨m, hm, hmpos, hmle, hmlt⟩ := CountLeadingZeroes32_eq (v := rhs.upper)
      (by have := hrhs0 hnonneg.2; omega) hrhs.valid.int32Upper
    have hlmax : lhs.upper < 2 ^ (32 - min n m) := hnlt.trans_le (pow_le_pow_of_le (by omega))
    have hrmax : rhs.upper < 2 ^ (32 - min n m) := hmlt.trans_le (pow_le_pow_of_le (by omega))
    have hpow : (2 : Int) ^ (32 - min n m) ≤ 2 ^ 31 := pow_le_pow_of_le (by omega)
    refine ⟨_, by rw [hn, hm]; rfl, ?_⟩
    rw [toInt_mask (by omega) (by omega), JSVAL_INT_MIN, JSVAL_INT_MAX]
    refine ⟨by omega, by omega, by omega, fun x y hx hy => ?_⟩
    obtain ⟨hxl, hxu⟩ := hx
    obtain ⟨hyl, hyu⟩ := hy
    have hle := toInt_or_of_nonneg (x := x) (y := y) (by omega) (by omega)
    have hlt := toInt_or_lt (x := x) (y := y) (k := 32 - min n m) (by omega) (by omega) (by omega) (by omega) (by omega)
    exact ⟨by omega, by omega⟩
  next hneg =>
    rcases orLeadingOnes_ok hlhs hlhs1 (JSVAL_INT_MIN, JSVAL_INT_MAX) with
      ⟨hlneg, j, hj, hbounds, hlow⟩ | ⟨hlneg, hbounds⟩
    . have hjmin : JSVAL_INT_MIN ≤ -2 ^ j := by
        have hpow : (2 : Int) ^ j ≤ 2 ^ 31 := pow_le_pow_of_le hj
        rw [JSVAL_INT_MIN]
        omega
      have hleft (x y : BitVec 32) (hx : Between lhs.lower lhs.upper x.toInt)
          : -2 ^ j ≤ (x ||| y).toInt ∧ (x ||| y).toInt ≤ -1 := by
        obtain ⟨hxl, hxu⟩ := hx
        exact or_of_neg (by omega) (by omega)
      rw [hbounds, some_bind, Int.max_eq_right hjmin]
      rcases orLeadingOnes_ok hrhs hrhs1 (-2 ^ j, -1) with ⟨hrneg, k, hk, hbounds', hrow⟩ | ⟨hrneg, hbounds'⟩
      . have hkpos : (1 : Int) ≤ 2 ^ k := pow_le_pow_of_le (Nat.zero_le k)
        refine ⟨_, hbounds', ?_⟩
        rw [JSVAL_INT_MAX]
        refine ⟨by omega, by omega, by omega, fun x y hx hy => ?_⟩
        obtain ⟨hyl, hyu⟩ := hy
        have hor := hleft x y hx
        have hor' := or_of_neg (x := y) (y := x) (k := k) (by omega) (by omega)
        rw [BitVec.or_comm] at hor'
        exact ⟨by omega, by omega⟩
      . refine ⟨_, hbounds', ?_⟩
        rw [JSVAL_INT_MAX]
        exact ⟨hjmin, by omega, by omega, fun x y hx _ => hleft x y hx⟩
    . rw [hbounds, some_bind]
      rcases orLeadingOnes_ok hrhs hrhs1 (JSVAL_INT_MIN, JSVAL_INT_MAX) with
        ⟨hrneg, k, hk, hbounds', hrow⟩ | ⟨hrneg, hbounds'⟩
      . have hkmin : JSVAL_INT_MIN ≤ -2 ^ k := by
          have hpow : (2 : Int) ^ k ≤ 2 ^ 31 := pow_le_pow_of_le hk
          rw [JSVAL_INT_MIN]
          omega
        refine ⟨_, hbounds', ?_⟩
        rw [JSVAL_INT_MAX, Int.max_eq_right hkmin]
        refine ⟨hkmin, by omega, by omega, fun x y hx hy => ?_⟩
        obtain ⟨hyl, hyu⟩ := hy
        rw [BitVec.or_comm]
        exact or_of_neg (by omega) (by omega)
      . exact ⟨_, hbounds', Int.le_refl _, by decide, Int.le_refl _, fun x y _ _ => toInt_mem _⟩

theorem or_includes (hlhs : IsInt32Range lhs) (hrhs : IsInt32Range rhs)
    : Includes lhs rhs (or_ lhs rhs) fun x y => (x ||| y).toInt := by
  have hl := hlhs.valid.lower_le_upper
  have hr := hrhs.valid.lower_le_upper
  rw [or_, guard_bind ⟨hlhs.isInt32, hrhs.isInt32⟩]
  split
  next h =>
    refine includes_right hrhs fun x y hx hy => ?_
    rw [eq_of_between hlhs (c := 0#32) h.1 h.2 hx, BitVec.zero_or]
  next hl0 =>
    split
    next h =>
      refine includes_left hlhs fun x y hx hy => ?_
      rw [eq_of_between hlhs (c := BitVec.allOnes 32) h.1 h.2 hx, BitVec.allOnes_or]
    next hl1 =>
      split
      next h =>
        refine includes_left hlhs fun x y hx hy => ?_
        rw [eq_of_between hrhs (c := 0#32) h.1 h.2 hy, BitVec.or_zero]
      next hr0 =>
        split
        next h =>
          refine includes_right hrhs fun x y hx hy => ?_
          rw [eq_of_between hrhs (c := BitVec.allOnes 32) h.1 h.2 hy, BitVec.or_allOnes]
        next hr1 =>
          have hlhs0 : lhs.lower ≥ 0 → lhs.upper ≠ 0 := by omega
          have hrhs0 : rhs.lower ≥ 0 → rhs.upper ≠ 0 := by omega
          have hlhs1 : lhs.upper < 0 → lhs.lower ≠ -1 := by omega
          have hrhs1 : rhs.upper < 0 → rhs.lower ≠ -1 := by omega
          obtain ⟨bounds, hbounds, hmin, hle, hmax, hbetween⟩ := orBounds_ok hlhs hrhs hlhs0 hrhs0 hlhs1 hrhs1
          rw [guard_bind hlhs0, guard_bind hrhs0, guard_bind hlhs1, guard_bind hrhs1, hbounds]
          exact includes_newInt32Range hlhs hrhs hmin hle hmax hbetween

theorem Nat_xor_le (ha : a < 2 ^ k) (hb : b ≤ c) : a ^^^ b ≤ c ||| (2 ^ k - 1) := by
  have hxor : (a ^^^ b) / 2 ^ k = b / 2 ^ k := by
    rw [Nat.xor_div_two_pow, Nat.div_eq_of_lt ha, Nat.zero_xor]
  have hor : (c ||| (2 ^ k - 1)) / 2 ^ k = c / 2 ^ k := by
    rw [Nat.or_div_two_pow, Nat.div_eq_of_lt (show 2 ^ k - 1 < 2 ^ k by omega), Nat.or_zero]
  have hmod : 2 ^ k - 1 ≤ (c ||| (2 ^ k - 1)) % 2 ^ k := by
    rw [Nat.or_mod_two_pow, Nat.mod_eq_of_lt (show 2 ^ k - 1 < 2 ^ k by omega)]
    exact Nat.right_le_or
  calc a ^^^ b = 2 ^ k * (b / 2 ^ k) + (a ^^^ b) % 2 ^ k := by rw [← hxor, Nat.div_add_mod]
    _ ≤ 2 ^ k * (c / 2 ^ k) + (c ||| (2 ^ k - 1)) % 2 ^ k :=
      Nat.add_le_add (Nat.mul_le_mul_left _ (Nat.div_le_div_right hb)) (by omega)
    _ = c ||| (2 ^ k - 1) := by rw [← hor, Nat.div_add_mod]

theorem toInt_xor_nonneg (hx : 0 ≤ x.toInt) (hy : 0 ≤ y.toInt) : 0 ≤ (x ^^^ y).toInt ∧ (x ^^^ y).toInt =
    (x ^^^ y).toNat := by
  have hcases := toInt_cases x
  have hcases' := toInt_cases y
  have hlt : (x ^^^ y).toNat < 2 ^ 31 := by
    exact Nat.xor_lt_two_pow (by omega) (by omega)
  have hcases'' := toInt_cases (x ^^^ y)
  omega

theorem toInt_xor_le {upper : Int} (hn : 1 ≤ n) (hn' : n ≤ 31) (hx : 0 ≤ x.toInt) (hxn : x.toInt < 2 ^ (32 - n))
    (hy : 0 ≤ y.toInt) (hyu : y.toInt ≤ upper) (hupper : upper ≤ JSVAL_INT_MAX)
    : (x ^^^ y).toInt ≤ (uint32 upper ||| UINT32_MAX >>> n).toInt := by
  have hint : (uint32 upper).toInt = upper := toInt_uint32 (by rw [JSVAL_INT_MIN]; omega) hupper
  have hmask := toInt_mask hn (by omega)
  have hor := toInt_or_of_nonneg (x := uint32 upper) (y := UINT32_MAX >>> n) (by omega) (by omega)
  have hcases := toInt_cases x
  have hcases' := toInt_cases y
  have hcases'' := toInt_cases (uint32 upper)
  have hcases''' := toInt_cases (uint32 upper ||| UINT32_MAX >>> n)
  have hle : (x ^^^ y).toNat ≤ (uint32 upper ||| UINT32_MAX >>> n).toNat := by
    rw [BitVec.toNat_xor, BitVec.toNat_or, toNat_mask (by omega)]
    refine Nat_xor_le ?_ (by omega)
    have hxnat : (x.toNat : Int) < 2 ^ (32 - n) := by omega
    exact_mod_cast hxnat
  have hxor := (toInt_xor_nonneg hx hy).2
  omega

def IsInt32Bounds (bounds : Int × Int) : Prop :=
  JSVAL_INT_MIN ≤ bounds.1 ∧ bounds.1 ≤ bounds.2 ∧ bounds.2 ≤ JSVAL_INT_MAX

theorem xorBounds_ok {lhs rhs : Int × Int} (hlhs : IsInt32Bounds lhs) (hrhs : IsInt32Bounds rhs)
    : ∃ bounds, xorBounds lhs rhs = some bounds ∧ IsInt32Bounds bounds
        ∧ ∀ x y : BitVec 32, Between lhs.1 lhs.2 x.toInt → Between rhs.1 rhs.2 y.toInt →
            Between bounds.1 bounds.2 (x ^^^ y).toInt := by
  obtain ⟨hlmin, hlle, hlmax⟩ := hlhs
  obtain ⟨hrmin, hrle, hrmax⟩ := hrhs
  rw [xorBounds]
  split
  next hzero =>
    refine ⟨rhs, rfl, ⟨hrmin, hrle, hrmax⟩, fun x y hx hy => ?_⟩
    obtain ⟨hxl, hxu⟩ := hx
    have hx0 : x = 0#32 := BitVec.eq_of_toInt_eq (by rw [BitVec.toInt_zero]; omega)
    rw [hx0, BitVec.zero_xor]
    exact hy
  next hlzero =>
    split
    next hzero =>
      refine ⟨lhs, rfl, ⟨hlmin, hlle, hlmax⟩, fun x y hx hy => ?_⟩
      obtain ⟨hyl, hyu⟩ := hy
      have hy0 : y = 0#32 := BitVec.eq_of_toInt_eq (by rw [BitVec.toInt_zero]; omega)
      rw [hy0, BitVec.xor_zero]
      exact hx
    next hrzero =>
      split
      next hnonneg =>
        obtain ⟨n, hn, hnpos, hnle, hnlt⟩ := CountLeadingZeroes32_eq (v := lhs.2) (by omega) hlmax
        obtain ⟨m, hm, hmpos, hmle, hmlt⟩ := CountLeadingZeroes32_eq (v := rhs.2) (by omega) hrmax
        refine ⟨_, by rw [hn, hm]; rfl, ⟨by rw [JSVAL_INT_MIN]; omega, ?_, ?_⟩, fun x y hx hy => ?_⟩
        . have hpow : (1 : Int) ≤ 2 ^ (32 - n) := pow_le_pow_of_le (Nat.zero_le _)
          have hxor := toInt_xor_le (x := 0#32) (y := 0#32) hnpos hnle (by decide) (by rw [BitVec.toInt_zero]; omega)
            (by decide) (show (0#32).toInt ≤ rhs.2 by rw [BitVec.toInt_zero]; omega) hrmax
          have hxor' := toInt_xor_le (x := 0#32) (y := 0#32) hmpos hmle (by decide) (by rw [BitVec.toInt_zero]; omega)
            (by decide) (show (0#32).toInt ≤ lhs.2 by rw [BitVec.toInt_zero]; omega) hlmax
          exact Int.le_min.mpr ⟨hxor, hxor'⟩
        . exact (Int.min_le_left ..).trans (toInt_mem _).2
        . obtain ⟨hxl, hxu⟩ := hx
          obtain ⟨hyl, hyu⟩ := hy
          have hxor := toInt_xor_le (x := x) (y := y) hnpos hnle (by omega) (by omega) (by omega) hyu hrmax
          have hxor' := toInt_xor_le (x := y) (y := x) hmpos hmle (by omega) (by omega) (by omega) hxu hlmax
          rw [BitVec.xor_comm] at hxor'
          exact ⟨(toInt_xor_nonneg (by omega) (by omega)).1, Int.le_min.mpr ⟨hxor, hxor'⟩⟩
      next => exact ⟨_, rfl, ⟨Int.le_refl _, by decide, Int.le_refl _⟩, fun x y _ _ => toInt_mem _⟩

theorem invert_isInt32Bounds {bounds : Int × Int} (h : IsInt32Bounds bounds) : IsInt32Bounds (invert bounds) := by
  obtain ⟨hmin, hle, hmax⟩ := h
  rw [JSVAL_INT_MIN] at hmin
  rw [JSVAL_INT_MAX] at hmax
  rw [IsInt32Bounds, invert, not_eq, not_eq, JSVAL_INT_MIN, JSVAL_INT_MAX]
  omega

theorem between_invert {bounds : Int × Int} (h : Between bounds.1 bounds.2 x.toInt)
    : Between (invert bounds).1 (invert bounds).2 (~~~x).toInt := by
  obtain ⟨hl, hu⟩ := h
  rw [Between, invert, toInt_not, not_eq, not_eq, not_eq]
  omega

theorem IsInt32Range.isInt32Bounds (hr : IsInt32Range lhs) : IsInt32Bounds (lhs.lower, lhs.upper) :=
  ⟨hr.valid.int32Lower, hr.valid.lower_le_upper, hr.valid.int32Upper⟩

theorem xor_includes (hlhs : IsInt32Range lhs) (hrhs : IsInt32Range rhs)
    : Includes lhs rhs (xor_ lhs rhs) fun x y => (x ^^^ y).toInt := by
  have hnot (p : Prop) [Decidable p] {bounds : Int × Int} (h : IsInt32Bounds bounds)
      : IsInt32Bounds (if p then invert bounds else bounds) := by
    split
    . exact invert_isInt32Bounds h
    . exact h
  have hnotBetween (p : Prop) [Decidable p] {bounds : Int × Int} {x : BitVec 32} (h : Between bounds.1 bounds.2 x.toInt)
      : Between (if p then invert bounds else bounds).1 (if p then invert bounds else bounds).2
          (if p then ~~~x else x).toInt := by
    split
    . exact between_invert h
    . exact h
  obtain ⟨bounds, hbounds, hint, hbetween⟩ :=
    xorBounds_ok (hnot (lhs.upper < 0) hlhs.isInt32Bounds) (hnot (rhs.upper < 0) hrhs.isInt32Bounds)
  have hafter := hnot ((decide (lhs.upper < 0) ^^ decide (rhs.upper < 0)) = true) hint
  rw [xor_, guard_bind ⟨hlhs.isInt32, hrhs.isInt32⟩]
  dsimp only
  rw [hbounds, some_bind]
  refine includes_newInt32Range hlhs hrhs hafter.1 hafter.2.1 hafter.2.2 fun x y hx hy => ?_
  have hxor := hnotBetween ((decide (lhs.upper < 0) ^^ decide (rhs.upper < 0)) = true)
    (hbetween _ _ (hnotBetween (lhs.upper < 0) hx) (hnotBetween (rhs.upper < 0) hy))
  by_cases hl : lhs.upper < 0 <;> by_cases hr : rhs.upper < 0
  all_goals
    simp only [hl, hr, if_true, if_false, decide_true, decide_false, Bool.xor_self, Bool.xor_true, Bool.xor_false,
      Bool.not_false, Bool.false_eq_true, ← BitVec.not_xor_left, ← BitVec.not_xor_right, BitVec.not_not] at hxor ⊢
    exact hxor

theorem not_includes (hlhs : IsInt32Range lhs) : IncludesUnary lhs (not_ lhs) fun x => (~~~x).toInt := by
  have hbounds := invert_isInt32Bounds hlhs.isInt32Bounds
  rw [not_, guard_bind hlhs.isInt32]
  refine includesUnary_newInt32Range hlhs hbounds.1 hbounds.2.1 hbounds.2.2 fun x hx => ?_
  exact between_invert (show Between (lhs.lower, lhs.upper).1 (lhs.lower, lhs.upper).2 x.toInt from hx)

theorem toNat_shift (c : BitVec 32) : (c &&& 0x1f#32).toNat = c.toNat % 32 := by
  exact Nat.and_two_pow_sub_one_eq_mod c.toNat 5

theorem of_shift_back {v : Int} {s : Nat} (h : (uint32 v <<< s <<< 1 >>> s >>> 1).toInt = v)
    : 0 ≤ v ∧ v * 2 ^ s < 2 ^ 31 := by
  obtain ⟨z, hz⟩ : ∃ z, z = uint32 v <<< s <<< 1 := ⟨_, rfl⟩
  have hnat : (z >>> s >>> 1).toNat = z.toNat / 2 ^ s / 2 := by
    rw [BitVec.toNat_ushiftRight, BitVec.toNat_ushiftRight, Nat.shiftRight_eq_div_pow, Nat.shiftRight_eq_div_pow,
      Nat.pow_one]
  rw [← hz] at h
  have hpos := Nat.two_pow_pos s
  have hle : z.toNat / 2 ^ s / 2 * 2 ^ s * 2 ≤ z.toNat := by
    calc z.toNat / 2 ^ s / 2 * 2 ^ s * 2 = z.toNat / 2 ^ s / 2 * 2 * 2 ^ s := Nat.mul_right_comm ..
      _ ≤ z.toNat / 2 ^ s * 2 ^ s := Nat.mul_le_mul_right _ (Nat.div_mul_le_self _ 2)
      _ ≤ z.toNat := Nat.div_mul_le_self _ _
  have hmul : z.toNat / 2 ^ s / 2 ≤ z.toNat / 2 ^ s / 2 * 2 ^ s := Nat.le_mul_of_pos_right _ hpos
  have hcases := toInt_cases (z >>> s >>> 1)
  have hv : v = (z.toNat / 2 ^ s / 2 : Nat) := by omega
  have hcast : v * 2 ^ s = (z.toNat / 2 ^ s / 2 * 2 ^ s : Nat) := by
    rw [hv]
    norm_cast
  omega

theorem toInt_shiftLeft (hx : 0 ≤ x.toInt) (hlt : x.toInt * 2 ^ s < 2 ^ 31)
    : (x <<< s).toInt = x.toInt * 2 ^ s := by
  have hcases := toInt_cases x
  have hcast : ((x.toNat * 2 ^ s : Nat) : Int) = x.toInt * 2 ^ s := by
    rw [show x.toInt = x.toNat by omega]
    norm_cast
  have hnat : (x <<< s).toNat = x.toNat * 2 ^ s := by
    rw [BitVec.toNat_shiftLeft, Nat.shiftLeft_eq, Nat.mod_eq_of_lt (by omega)]
  have hcases' := toInt_cases (x <<< s)
  omega

theorem lshBy_includes (hlhs : IsInt32Range lhs) (c : BitVec 32)
    : IncludesUnary lhs (lshBy lhs c) fun x => (x <<< (c &&& 0x1f#32).toNat).toInt := by
  have hvalid := hlhs.valid
  have hle := hvalid.lower_le_upper
  rw [lshBy, guard_bind hlhs.isInt32]
  dsimp only
  split
  next hback =>
    obtain ⟨hl, hlpow⟩ := of_shift_back hback.1
    obtain ⟨hu, hupow⟩ := of_shift_back hback.2
    have hlint : (uint32 lhs.lower).toInt = lhs.lower := toInt_uint32 hvalid.int32Lower (hle.trans hvalid.int32Upper)
    have huint : (uint32 lhs.upper).toInt = lhs.upper := toInt_uint32 (hvalid.int32Lower.trans hle) hvalid.int32Upper
    have hpos : (0 : Int) < 2 ^ (c &&& 0x1f#32).toNat := Int.pow_pos (by decide)
    rw [toInt_shiftLeft (by omega) (by rw [hlint]; exact hlpow),
      toInt_shiftLeft (by omega) (by rw [huint]; exact hupow), hlint, huint]
    refine includesUnary_newInt32Range hlhs ?_ (Int.mul_le_mul_of_nonneg_right hle hpos.le) ?_ fun x hx => ?_
    . have hnonneg := Int.mul_nonneg hl hpos.le
      rw [JSVAL_INT_MIN]
      omega
    . rw [JSVAL_INT_MAX]
      omega
    . have hxu := Int.mul_le_mul_of_nonneg_right hx.2 hpos.le
      rw [toInt_shiftLeft (hl.trans hx.1) (by omega)]
      exact ⟨Int.mul_le_mul_of_nonneg_right hx.1 hpos.le, hxu⟩
  next =>
    exact includesUnary_newInt32Range hlhs (Int.le_refl _) (by decide) (Int.le_refl _) fun x _ => toInt_mem _

theorem shiftRight_mono {a b : Int} (hle : a ≤ b) (s : Nat) : a >>> s ≤ b >>> s := by
  rw [Int.shiftRight_eq_div_pow, Int.shiftRight_eq_div_pow]
  exact Int.ediv_le_ediv (by positivity) hle

theorem shiftRight_add (a : Int) (s t : Nat) : a >>> (s + t) = a >>> s >>> t := Int.shiftRight_add a s t

theorem shiftRight_of_nonneg {a : Int} (ha : 0 ≤ a) (s : Nat) : 0 ≤ a >>> s ∧ a >>> s ≤ a := by
  rw [Int.shiftRight_eq_div_pow]
  exact ⟨Int.ediv_nonneg ha (by positivity), Int.ediv_le_self _ ha⟩

theorem shiftRight_of_neg {a : Int} (ha : a < 0) (s : Nat) : a ≤ a >>> s ∧ a >>> s < 0 := by
  have hpos : (1 : Int) ≤ ((2 ^ s : Nat) : Int) := Int.ofNat_le.mpr (Nat.two_pow_pos s)
  rw [Int.shiftRight_eq_div_pow]
  refine ⟨?_, Int.ediv_neg_of_neg_of_pos ha (by omega)⟩
  apply (Int.le_ediv_iff_mul_le (by omega)).mpr
  have hmul : a * ((2 ^ s : Nat) : Int) ≤ a * 1 := Int.mul_le_mul_of_nonpos_left (by omega) hpos
  omega

theorem shiftRight_antitone {a : Int} {s t : Nat} (ha : 0 ≤ a) (hst : s ≤ t) : a >>> t ≤ a >>> s := by
  obtain ⟨d, rfl⟩ := Nat.exists_eq_add_of_le hst
  rw [shiftRight_add]
  exact (shiftRight_of_nonneg (shiftRight_of_nonneg ha s).1 d).2

theorem shiftRight_monotone {a : Int} {s t : Nat} (ha : a < 0) (hst : s ≤ t) : a >>> s ≤ a >>> t := by
  obtain ⟨d, rfl⟩ := Nat.exists_eq_add_of_le hst
  rw [shiftRight_add]
  exact (shiftRight_of_neg (shiftRight_of_neg ha s).2 d).1

theorem shiftRight_mem {a : Int} (hl : JSVAL_INT_MIN ≤ a) (hh : a ≤ JSVAL_INT_MAX) (s : Nat)
    : JSVAL_INT_MIN ≤ a >>> s ∧ a >>> s ≤ JSVAL_INT_MAX := by
  rw [JSVAL_INT_MIN] at *
  rw [JSVAL_INT_MAX] at *
  by_cases ha : 0 ≤ a
  . have hshift := shiftRight_of_nonneg ha s
    omega
  . have hshift := shiftRight_of_neg (Int.not_le.mp ha) s
    omega

theorem rshBy_includes (hlhs : IsInt32Range lhs) (c : BitVec 32)
    : IncludesUnary lhs (rshBy lhs c) fun x => (x.sshiftRight (c &&& 0x1f#32).toNat).toInt := by
  have hvalid := hlhs.valid
  have hle := hvalid.lower_le_upper
  rw [rshBy, guard_bind hlhs.isInt32]
  refine includesUnary_newInt32Range hlhs (shiftRight_mem hvalid.int32Lower (hle.trans hvalid.int32Upper) _).1
    (shiftRight_mono hle _) (shiftRight_mem (hvalid.int32Lower.trans hle) hvalid.int32Upper _).2 fun x hx => ?_
  rw [BitVec.toInt_sshiftRight]
  exact ⟨shiftRight_mono hx.1 _, shiftRight_mono hx.2 _⟩

theorem includesUnary_newUInt32Range {l h : Nat} {op : BitVec 32 → Nat} (hlhs : IsInt32Range lhs) (hle : l ≤ h)
    (hh : h < 2 ^ 32) (hbetween : ∀ x : BitVec 32, Between lhs.lower lhs.upper x.toInt → l ≤ op x ∧ op x ≤ h)
    : IncludesUnary lhs (some (NewUInt32Range l h)) fun x => op x := by
  obtain ⟨hvalid, hcontains⟩ := newUInt32Range_valid hle hh
  refine ⟨_, rfl, hvalid, fun x hx => hcontains _ ?_⟩
  obtain ⟨hl, hu⟩ := hbetween x (hlhs.between hx)
  exact ⟨Int.ofNat_le.mpr hl, Int.ofNat_le.mpr hu⟩

theorem toNat_ushiftRight_mono (h : x.toNat ≤ y.toNat) (s : Nat) : (x >>> s).toNat ≤ (y >>> s).toNat := by
  rw [BitVec.toNat_ushiftRight, BitVec.toNat_ushiftRight, Nat.shiftRight_eq_div_pow, Nat.shiftRight_eq_div_pow]
  exact Nat.div_le_div_right h

theorem urshBy_includes (hlhs : IsInt32Range lhs) (c : BitVec 32)
    : IncludesUnary lhs (urshBy lhs c) fun x => (x >>> (c &&& 0x1f#32).toNat).toNat := by
  have hvalid := hlhs.valid
  have hle := hvalid.lower_le_upper
  rw [urshBy, guard_bind hlhs.isInt32]
  split
  next hsign =>
    have hsign : 0 ≤ lhs.lower ∨ lhs.upper < 0 := by
      rw [isFiniteNonNegative, isFiniteNegative, Bool.and_eq_true, Bool.and_eq_true, decide_eq_true_eq,
        decide_eq_true_eq] at hsign
      exact hsign.imp And.left And.left
    have hl : (uint32 lhs.lower).toInt = lhs.lower := toInt_uint32 hvalid.int32Lower (hle.trans hvalid.int32Upper)
    have hu : (uint32 lhs.upper).toInt = lhs.upper := toInt_uint32 (hvalid.int32Lower.trans hle) hvalid.int32Upper
    have hcases := toInt_cases (uint32 lhs.lower)
    have hcases' := toInt_cases (uint32 lhs.upper)
    refine includesUnary_newUInt32Range hlhs (toNat_ushiftRight_mono (by omega) _) (BitVec.isLt _) fun x hx => ?_
    obtain ⟨hxl, hxu⟩ := hx
    have hcases'' := toInt_cases x
    exact ⟨toNat_ushiftRight_mono (by omega) _, toNat_ushiftRight_mono (by omega) _⟩
  next =>
    refine includesUnary_newUInt32Range hlhs (Nat.zero_le _) (BitVec.isLt _) fun x _ => ⟨Nat.zero_le _, ?_⟩
    apply toNat_ushiftRight_mono
    exact Nat.le_sub_one_of_lt x.isLt

theorem lsh_includes (hlhs : IsInt32Range lhs) (hrhs : IsInt32Range rhs)
    : Includes lhs rhs (lsh lhs rhs) fun x y => (x <<< (y &&& 0x1f#32).toNat).toInt := by
  rw [lsh, guard_bind ⟨hlhs.isInt32, hrhs.isInt32⟩]
  exact includes_newInt32Range hlhs hrhs (Int.le_refl _) (by decide) (Int.le_refl _) fun x y _ _ => toInt_mem _

theorem shiftBounds_ok (hrhs : IsInt32Range rhs)
    : (shiftBounds rhs).1 ≤ (shiftBounds rhs).2 ∧ (shiftBounds rhs).2 ≤ 31
      ∧ ∀ y : BitVec 32, Between rhs.lower rhs.upper y.toInt →
          (shiftBounds rhs).1 ≤ (y &&& 0x1f#32).toNat ∧ (y &&& 0x1f#32).toNat ≤ (shiftBounds rhs).2 := by
  have hvalid := hrhs.valid
  have hle := hvalid.lower_le_upper
  have hl : (uint32 rhs.lower).toInt = rhs.lower := toInt_uint32 hvalid.int32Lower (hle.trans hvalid.int32Upper)
  have hu : (uint32 rhs.upper).toInt = rhs.upper := toInt_uint32 (hvalid.int32Lower.trans hle) hvalid.int32Upper
  have hcases := toInt_cases (uint32 rhs.lower)
  have hcases' := toInt_cases (uint32 rhs.upper)
  rw [shiftBounds]
  simp only [toNat_shift]
  split
  next => exact ⟨by decide, Nat.le_refl _, fun y _ => ⟨Nat.zero_le _, by omega⟩⟩
  next hshort =>
    split
    next => exact ⟨by decide, Nat.le_refl _, fun y _ => ⟨Nat.zero_le _, by omega⟩⟩
    next hordered =>
      refine ⟨by omega, by omega, fun y hy => ?_⟩
      obtain ⟨hyl, hyu⟩ := hy
      have hcases'' := toInt_cases y
      omega

theorem rsh_includes (hlhs : IsInt32Range lhs) (hrhs : IsInt32Range rhs)
    : Includes lhs rhs (rsh lhs rhs) fun x y => (x.sshiftRight (y &&& 0x1f#32).toNat).toInt := by
  have hvalid := hlhs.valid
  have hle := hvalid.lower_le_upper
  have hlmax := hle.trans hvalid.int32Upper
  have humin := hvalid.int32Lower.trans hle
  obtain ⟨hshift, hshift31, hshiftBetween⟩ := shiftBounds_ok hrhs
  rw [rsh, guard_bind ⟨hlhs.isInt32, hrhs.isInt32⟩]
  dsimp only
  rw [guard_bind hshift31]
  have hbetween (v : Int) (s : Nat) (hv : Between lhs.lower lhs.upper v) (hs : (shiftBounds rhs).1 ≤ s)
      (hs' : s ≤ (shiftBounds rhs).2)
      : Between (if lhs.lower < 0 then lhs.lower >>> (shiftBounds rhs).1 else lhs.lower >>> (shiftBounds rhs).2)
          (if lhs.upper ≥ 0 then lhs.upper >>> (shiftBounds rhs).1 else lhs.upper >>> (shiftBounds rhs).2)
          (v >>> s) := by
    constructor
    . refine Int.le_trans ?_ (shiftRight_mono hv.1 s)
      split
      next hneg => exact shiftRight_monotone hneg hs
      next hnonneg => exact shiftRight_antitone (Int.not_lt.mp hnonneg) hs'
    refine Int.le_trans (shiftRight_mono hv.2 s) ?_
    split
    next hnonneg => exact shiftRight_antitone hnonneg hs
    next hneg => exact shiftRight_monotone (Int.not_le.mp hneg) hs'
  have hlower := hbetween lhs.lower _ ⟨Int.le_refl _, hle⟩ (Nat.le_refl _) hshift
  refine includes_newInt32Range hlhs hrhs ?_ (hlower.1.trans hlower.2) ?_ fun x y hx hy => ?_
  . split
    . exact (shiftRight_mem hvalid.int32Lower hlmax _).1
    . exact (shiftRight_mem hvalid.int32Lower hlmax _).1
  . split
    . exact (shiftRight_mem humin hvalid.int32Upper _).2
    . exact (shiftRight_mem humin hvalid.int32Upper _).2
  . obtain ⟨hs, hs'⟩ := hshiftBetween y hy
    rw [BitVec.toInt_sshiftRight]
    exact hbetween _ _ hx hs hs'

theorem ursh_includes (hlhs : IsInt32Range lhs) (hrhs : IsInt32Range rhs)
    : Includes lhs rhs (ursh lhs rhs) fun x y => (x >>> (y &&& 0x1f#32).toNat).toNat := by
  have hvalid := hlhs.valid
  have hle := hvalid.lower_le_upper
  have hmax := hvalid.int32Upper
  rw [JSVAL_INT_MAX] at hmax
  obtain ⟨upper, hupper, hlt, hbound⟩ : ∃ upper : Nat,
      (if lhs.isFiniteNonNegative then lhs.upper else UINT32_MAX.toNat) = upper ∧ upper < 2 ^ 32
        ∧ ∀ x : BitVec 32, lhs.Contains x.toInt → x.toNat ≤ upper := by
    split
    next hnonneg =>
      rw [isFiniteNonNegative, Bool.and_eq_true, decide_eq_true_eq] at hnonneg
      refine ⟨lhs.upper.toNat, by omega, by omega, fun x hx => ?_⟩
      obtain ⟨hxl, hxu⟩ := hlhs.between hx
      have hcases := toInt_cases x
      omega
    next => exact ⟨_, rfl, BitVec.isLt _, fun x _ => Nat.le_sub_one_of_lt x.isLt⟩
  rw [ursh, guard_bind ⟨hlhs.isInt32, hrhs.isInt32⟩, hupper]
  obtain ⟨hvalid', hcontains⟩ := newUInt32Range_valid (Nat.zero_le upper) hlt
  refine ⟨_, rfl, hvalid', fun x y hx _ => hcontains _ ⟨Int.natCast_nonneg _, Int.ofNat_le.mpr ?_⟩⟩
  refine Nat.le_trans ?_ (hbound x hx)
  exact Nat.shiftRight_le _ _

theorem bitwiseRanges_sound (hlhs : IsInt32Range lhs) (hrhs : IsInt32Range rhs) (c : BitVec 32)
    : (Includes lhs rhs (and_ lhs rhs) fun x y => (x &&& y).toInt)
      ∧ (Includes lhs rhs (or_ lhs rhs) fun x y => (x ||| y).toInt)
      ∧ (Includes lhs rhs (xor_ lhs rhs) fun x y => (x ^^^ y).toInt)
      ∧ (IncludesUnary lhs (not_ lhs) fun x => (~~~x).toInt)
      ∧ (Includes lhs rhs (lsh lhs rhs) fun x y => (x <<< (y &&& 0x1f#32).toNat).toInt)
      ∧ (Includes lhs rhs (rsh lhs rhs) fun x y => (x.sshiftRight (y &&& 0x1f#32).toNat).toInt)
      ∧ (Includes lhs rhs (ursh lhs rhs) fun x y => (x >>> (y &&& 0x1f#32).toNat).toNat)
      ∧ (IncludesUnary lhs (lshBy lhs c) fun x => (x <<< (c &&& 0x1f#32).toNat).toInt)
      ∧ (IncludesUnary lhs (rshBy lhs c) fun x => (x.sshiftRight (c &&& 0x1f#32).toNat).toInt)
      ∧ (IncludesUnary lhs (urshBy lhs c) fun x => (x >>> (c &&& 0x1f#32).toNat).toNat) :=
  ⟨and_includes hlhs hrhs, or_includes hlhs hrhs, xor_includes hlhs hrhs, not_includes hlhs, lsh_includes hlhs hrhs,
    rsh_includes hlhs hrhs, ursh_includes hlhs hrhs, lshBy_includes hlhs c, rshBy_includes hlhs c,
    urshBy_includes hlhs c⟩

end

theorem bitwiseRanges_sound_of_wrapping
    : let lhs := NewInt32Range (-5) 6
      let rhs := NewInt32Range 30 33
      (Includes lhs rhs (and_ lhs rhs) fun x y => (x &&& y).toInt)
        ∧ (Includes lhs rhs (or_ lhs rhs) fun x y => (x ||| y).toInt)
        ∧ (Includes lhs rhs (xor_ lhs rhs) fun x y => (x ^^^ y).toInt)
        ∧ (IncludesUnary lhs (not_ lhs) fun x => (~~~x).toInt)
        ∧ (Includes lhs rhs (lsh lhs rhs) fun x y => (x <<< (y &&& 0x1f#32).toNat).toInt)
        ∧ (Includes lhs rhs (rsh lhs rhs) fun x y => (x.sshiftRight (y &&& 0x1f#32).toNat).toInt)
        ∧ (Includes lhs rhs (ursh lhs rhs) fun x y => (x >>> (y &&& 0x1f#32).toNat).toNat)
        ∧ (IncludesUnary lhs (lshBy lhs 33#32) fun x => (x <<< (33#32 &&& 0x1f#32).toNat).toInt)
        ∧ (IncludesUnary lhs (rshBy lhs 33#32) fun x => (x.sshiftRight (33#32 &&& 0x1f#32).toNat).toInt)
        ∧ (IncludesUnary lhs (urshBy lhs 33#32) fun x => (x >>> (33#32 &&& 0x1f#32).toNat).toNat) :=
  bitwiseRanges_sound ⟨(newInt32Range_valid (by decide) (by decide) (by decide)).1, by decide⟩
    ⟨(newInt32Range_valid (by decide) (by decide) (by decide)).1, by decide⟩ 33#32

end SpiderMonkey.Range
