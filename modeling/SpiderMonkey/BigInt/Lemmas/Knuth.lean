import SpiderMonkey.BigInt.Lemmas.DigitDiv
import SpiderMonkey.BigInt.Lemmas.MultiDigit

/-!
This module contains the specification of one round of `absoluteDivWithBigIntDivisor`: the quotient
digit is exact after at most one add-back.
-/

namespace SpiderMonkey.BigInt

variable {p : Platform}

theorem lowerEstimate_toNat (vn2 ujn2 : Digit p) (hvn1 : 0 < vn1.toNat) (hq : qhat.toNat * vn1.toNat + rhat.toNat = ut)
    (hlt : ut * base p + ujn2.toNat < (qhat.toNat + 1) * (vn1.toNat * base p + vn2.toNat))
    : (lowerEstimate vn1 vn2 ujn2 qhat rhat).toNat = (ut * base p + ujn2.toNat) / (vn1.toNat * base p + vn2.toNat) := by
  have hfits := LongDivision.estimate_le_iff (base p) vn2.toNat ujn2.toNat hq
  have hsum : (rhat + vn1).toNat = (rhat.toNat + vn1.toNat) % base p := BitVec.toNat_add _ _
  have hrhat_lt := toNat_lt_base rhat
  have hvn1_lt := toNat_lt_base vn1
  have hgrow : rhat.toNat + vn1.toNat < base p → rhat.toNat < (rhat + vn1).toNat := by
    intro hoverflow
    rw [hsum, Nat.mod_eq_of_lt hoverflow]
    omega
  unfold lowerEstimate
  split
  . next htoolarge =>
    rw [productGreaterThan_iff] at htoolarge
    have hpos : 0 < qhat.toNat := by
      by_contra hzero
      have : qhat.toNat = 0 := by omega
      rw [this] at htoolarge
      omega
    have hpred := toNat_sub_one hpos
    have hq' : (qhat - 1).toNat * vn1.toNat + (rhat.toNat + vn1.toNat) = ut := by
      rw [hpred, Nat.sub_mul, ← hq]
      have : vn1.toNat ≤ qhat.toNat * vn1.toNat := Nat.le_mul_of_pos_left _ hpos
      omega
    have hlt' : ut * base p + ujn2.toNat < ((qhat - 1).toNat + 1) * (vn1.toNat * base p + vn2.toNat) := by
      rw [hpred, Nat.sub_add_cancel hpos]
      omega
    dsimp only
    by_cases hoverflow : rhat.toNat + vn1.toNat < base p
    . rw [Nat.mod_eq_of_lt hoverflow] at hsum
      rw [if_neg, dif_pos]
      . apply lowerEstimate_toNat _ _ hvn1
        . rw [hsum]
          exact hq'
        . exact hlt'
      . rw [BitVec.lt_def]
        omega
      . rw [BitVec.lt_def]
        omega
    rw [Nat.mod_eq_sub_mod (by omega), Nat.mod_eq_of_lt (by omega)] at hsum
    rw [if_pos]
    . symm
      apply LongDivision.div_eq_of_bounds
      . rw [← LongDivision.estimate_le_iff _ _ _ hq']
        have h1 := toNat_lt_base (qhat - 1)
        have h2 := toNat_lt_base vn2
        calc (qhat - 1).toNat * vn2.toNat
            ≤ base p * base p := Nat.mul_le_mul h1.le h2.le
          _ ≤ (rhat.toNat + vn1.toNat) * base p := Nat.mul_le_mul_right _ (by omega)
          _ ≤ (rhat.toNat + vn1.toNat) * base p + ujn2.toNat := Nat.le_add_right _ _
      . exact hlt'
    . rw [BitVec.lt_def]
      omega
  . next hok =>
    rw [productGreaterThan_iff] at hok
    symm
    apply LongDivision.div_eq_of_bounds
    . omega
    . exact hlt
termination_by 2 ^ digitBits p - rhat.toNat
decreasing_by
  have : (rhat + vn1).toNat < 2 ^ digitBits p := (rhat + vn1).isLt
  have := hgrow (by assumption)
  omega

/--
The normalized divisor of a long division.
-/
structure Normalized (v : BigInt p) (n : Nat) : Prop where
  two_le : 2 ≤ n
  length_eq : v.digitLength = n
  msd_large : base p ≤ 2 * (v.digit (n - 1)).toNat

theorem sliceValue_top (x : BigInt p) (s : Nat) (hn : 1 ≤ n)
    : x.sliceValue s n = (x.digit (s + n - 1)).toNat * base p ^ (n - 1) + x.sliceValue s (n - 1) := by
  obtain ⟨k, rfl⟩ := Nat.exists_eq_add_of_le' hn
  rw [sliceValue_succ, Nat.add_sub_cancel, Nat.add_comm]
  rfl

theorem sliceValue_top_two (x : BigInt p) (s : Nat) (hn : 2 ≤ n)
    : x.sliceValue s n = ((x.digit (s + n - 1)).toNat * base p + (x.digit (s + n - 2)).toNat) * base p ^ (n - 2)
        + x.sliceValue s (n - 2) := by
  obtain ⟨k, rfl⟩ := Nat.exists_eq_add_of_le' hn
  rw [sliceValue_succ, sliceValue_succ, Nat.add_sub_cancel, pow_succ]
  have h1 : s + (k + 2) - 1 = s + (k + 1) := by omega
  have h2 : s + (k + 2) - 2 = s + k := by omega
  rw [h1, h2]
  ring

theorem Normalized.pos {v : BigInt p} (hv : Normalized v n) : 0 < v.sliceValue 0 n := by
  have h := sliceValue_top v 0 (n := n) (by have := hv.two_le; omega)
  rw [Nat.zero_add] at h
  have hmsd : 0 < (v.digit (n - 1)).toNat := by
    have := hv.msd_large
    have := base_pos (p := p)
    omega
  have : 0 < (v.digit (n - 1)).toNat * base p ^ (n - 1) :=
    Nat.mul_pos hmsd (Nat.pow_pos base_pos)
  omega

/--
The estimate is never too small and exceeds the quotient digit by one at most.
-/
theorem estimateQuotientDigit_bounds {v u : BigInt p} (hv : Normalized v n)
    (hu : u.sliceValue j (n + 1) < v.sliceValue 0 n * base p)
    : u.sliceValue j (n + 1) / v.sliceValue 0 n ≤ (estimateQuotientDigit v u n j).toNat ∧
      (estimateQuotientDigit v u n j).toNat ≤ u.sliceValue j (n + 1) / v.sliceValue 0 n + 1 := by
  have hn := hv.two_le
  have hvpos := hv.pos
  have hnorm := hv.msd_large
  have hbase := four_le_base (p := p)
  have hvn1 : 0 < (v.digit (n - 1)).toNat := by omega
  have hV2 := sliceValue_top_two v 0 hn
  rw [Nat.zero_add] at hV2
  have hU2 : u.sliceValue j (n + 1) = (((u.digit (j + n)).toNat * base p + (u.digit (j + n - 1)).toNat) * base p
          + (u.digit (j + n - 2)).toNat) * base p ^ (n - 2) + u.sliceValue j (n - 2) := by
    have h := sliceValue_top_two u j hn
    have hpow : base p ^ n = base p ^ (n - 2) * base p * base p := by
      rw [← pow_succ, ← pow_succ]
      congr 1
      omega
    rw [sliceValue_succ, h, hpow]
    ring
  have hulow := sliceValue_lt u j (n - 2)
  have hvlow := sliceValue_lt v 0 (n - 2)
  have hquot_lt : u.sliceValue j (n + 1) / v.sliceValue 0 n < base p := by
    rw [Nat.div_lt_iff_lt_mul hvpos, Nat.mul_comm]
    exact hu
  have hlead : (u.digit (j + n)).toNat ≤ (v.digit (n - 1)).toNat := by
    have hU := sliceValue_top u j (n := n + 1) (by omega)
    have hV := sliceValue_top v 0 (n := n) (by omega)
    rw [Nat.add_sub_cancel, show j + (n + 1) - 1 = j + n by omega] at hU
    rw [Nat.zero_add] at hV
    have hrest := sliceValue_lt v 0 (n - 1)
    have hpow : base p ^ n = base p ^ (n - 1) * base p := by
      rw [← pow_succ]
      congr 1
      omega
    have hlt : (u.digit (j + n)).toNat * base p ^ n < ((v.digit (n - 1)).toNat + 1) * base p ^ n := by
      calc (u.digit (j + n)).toNat * base p ^ n
          ≤ u.sliceValue j (n + 1) := by omega
        _ < v.sliceValue 0 n * base p := hu
        _ ≤ ((v.digit (n - 1)).toNat * base p ^ (n - 1) + base p ^ (n - 1)) * base p := by
          apply Nat.mul_le_mul_right
          omega
        _ = ((v.digit (n - 1)).toNat + 1) * base p ^ n := by
          rw [hpow]
          ring
    have := Nat.lt_of_mul_lt_mul_right hlt
    omega
  unfold estimateQuotientDigit
  dsimp only
  split
  . next hne =>
    have hlt : (u.digit (j + n)).toNat < (v.digit (n - 1)).toNat := by
      rw [ne_eq, BitVec.toNat_eq] at hne
      omega
    have ⟨hq, hr⟩ := digitDiv_toNat (u.digit (j + n)) (u.digit (j + n - 1)) (v.digit (n - 1)) hlt
    generalize digitDiv (u.digit (j + n)) (u.digit (j + n - 1)) (v.digit (n - 1)) = qr at *
    have hqr := Nat.div_add_mod' ((u.digit (j + n)).toNat * base p + (u.digit (j + n - 1)).toNat)
      (v.digit (n - 1)).toNat
    rw [← hq, ← hr] at hqr
    have hrlt : qr.2.toNat < (v.digit (n - 1)).toNat := by
      rw [hr]
      exact Nat.mod_lt _ hvn1
    have hestimate := lowerEstimate_toNat (v.digit (n - 2)) (u.digit (j + n - 2)) hvn1 hqr
      (LongDivision.lt_succ_estimate_mul (toNat_lt_base _) hrlt hqr)
    have hestimate_lt := toNat_lt_base
      (lowerEstimate (v.digit (n - 1)) (v.digit (n - 2)) (u.digit (j + n - 2)) qr.1 qr.2)
    have hlead_pos : base p ≤ (v.digit (n - 1)).toNat * base p + (v.digit (n - 2)).toNat := by
      have := Nat.le_mul_of_pos_left (base p) hvn1
      omega
    rw [hU2, hV2]
    constructor
    . rw [hestimate]
      apply LongDivision.div_le_estimate
      . omega
      . exact hulow
    apply LongDivision.estimate_le_div_succ
    . omega
    . exact hvlow
    . rw [hestimate]
      apply Nat.div_mul_le_self
    . omega
  . next heq =>
    rw [ne_eq, not_not] at heq
    have hmax : (digitMax p).toNat = base p - 1 := by
      rw [digitMax, BitVec.toNat_allOnes]
      rfl
    rw [hmax]
    constructor
    . omega
    apply LongDivision.max_digit_le_div_succ (v.digit (n - 1)).toNat (base p ^ (n - 1))
    . have hU := sliceValue_top u j (n := n + 1) (by omega)
      rw [Nat.add_sub_cancel, show j + (n + 1) - 1 = j + n by omega] at hU
      have hpow : base p ^ n = base p ^ (n - 1) * base p := by
        rw [← pow_succ]
        congr 1
        omega
      rw [← heq, hU, hpow, Nat.mul_assoc, Nat.mul_comm (base p) (base p ^ (n - 1))]
      apply Nat.le_add_right
    . have hV := sliceValue_top v 0 (n := n) (by omega)
      rw [Nat.zero_add] at hV
      have hrest := sliceValue_lt v 0 (n - 1)
      rw [hV, Nat.add_mul]
      omega
    . exact hnorm
    . exact hvpos

/--
Multiply and subtract, with the add-back, replaces the part of the dividend that is divided by its
remainder and makes the quotient digit exact.
-/
theorem subtractQuotientDigit_inv {v qhatv u : BigInt p}
    (hv : Normalized v n) (hqhatv : qhatv.digitLength = n + 1)
    (hlow : u.sliceValue j (n + 1) / v.sliceValue 0 n ≤ qhat.toNat)
    (hhigh : qhat.toNat ≤ u.sliceValue j (n + 1) / v.sliceValue 0 n + 1)
    : let res := subtractQuotientDigit v qhatv u n j qhat
      res.1.digitLength = u.digitLength ∧ res.1.isNegative = u.isNegative ∧
      (∀ i, i < j ∨ j + n < i → res.1.digit i = u.digit i) ∧
      res.2.1.digitLength = n + 1 ∧
      res.1.digit (j + n) = 0 ∧
      res.1.sliceValue j n = u.sliceValue j (n + 1) % v.sliceValue 0 n ∧
      res.2.2.toNat = u.sliceValue j (n + 1) / v.sliceValue 0 n := by
  obtain ⟨hplen, _, hpval⟩ := internalMultiplyAdd_inv v qhatv qhat 0 n hqhatv
  unfold subtractQuotientDigit
  dsimp only
  generalize internalMultiplyAdd v qhat 0 n qhatv = prod at *
  obtain ⟨hslen, hsneg, hsframe, hsborrow, hsval⟩ := absoluteInplaceSub_inv u prod j
  generalize absoluteInplaceSub u prod j = sub at *
  have hprod : prod.abs = qhat.toNat * v.sliceValue 0 n := by
    rw [abs, hplen, hpval, toNat_zero, Nat.add_zero, Nat.mul_comm]
  rw [hplen, hprod] at hsval
  rw [hplen] at hsframe
  have hVlt := sliceValue_lt v 0 n
  have hmod_lt := Nat.mod_lt (u.sliceValue j (n + 1)) hv.pos
  obtain ⟨hexact, hback⟩ := LongDivision.multiply_subtract hv.pos hlow hhigh hsval (sliceValue_lt sub.1 j (n + 1))
  have hstop := sliceValue_succ sub.1 j n
  have hpow : base p ^ (n + 1) = base p * base p ^ n := by
    rw [pow_succ, Nat.mul_comm]
  have hpow_pos : 0 < base p ^ n := Nat.pow_pos base_pos
  split
  . next hborrow =>
    have hone : sub.2.toNat = 1 := by
      rw [ne_eq, BitVec.toNat_eq, toNat_zero] at hborrow
      omega
    obtain ⟨hq, hr⟩ := hback hone
    obtain ⟨halen, haneg, haframe, hacarry, haval⟩ := absoluteInplaceAdd_inv sub.1 v j
    generalize absoluteInplaceAdd sub.1 v j = add at *
    rw [abs, hv.length_eq] at haval
    rw [hv.length_eq] at haframe
    have htop : (add.1.digit (j + n)).toNat + add.2.toNat = base p := by
      rw [haframe (j + n) (by omega)]
      have haddlt := sliceValue_lt add.1 j n
      have hsum : add.1.sliceValue j n + ((sub.1.digit (j + n)).toNat + add.2.toNat) * base p ^ n
          = base p * base p ^ n + u.sliceValue j (n + 1) % v.sliceValue 0 n := by
        rw [Nat.add_mul]
        omega
      apply Nat.le_antisymm
      . have hlt : ((sub.1.digit (j + n)).toNat + add.2.toNat) * base p ^ n < (base p + 1) * base p ^ n := by
          rw [Nat.add_mul (base p)]
          omega
        have := Nat.lt_of_mul_lt_mul_right hlt
        omega
      have hlt : base p * base p ^ n < ((sub.1.digit (j + n)).toNat + add.2.toNat + 1) * base p ^ n := by
        rw [Nat.add_mul _ 1]
        omega
      have := Nat.lt_of_mul_lt_mul_right hlt
      omega
    have hzero : add.1.digit (j + n) + add.2 = 0 := by
      apply BitVec.eq_of_toNat_eq
      rw [BitVec.toNat_add, htop, toNat_zero]
      apply Nat.mod_self
    refine ⟨?_, ?_, ?_, hplen, ?_, ?_, ?_⟩
    . rw [setDigit_digitLength, halen, hslen]
    . rw [setDigit_isNegative, haneg, hsneg]
    . intro i hi
      rw [setDigit_digit_of_ne _ _ (by omega), haframe i (by omega), hsframe i (by omega)]
    . rw [setDigit_digit_self, hzero]
    . rw [sliceValue_setDigit_of_not_mem _ _ (by omega)]
      rw [haframe (j + n) (by omega)] at htop
      have hmul : (sub.1.digit (j + n)).toNat * base p ^ n + add.2.toNat * base p ^ n = base p * base p ^ n := by
        rw [← Nat.add_mul, htop]
      omega
    . have hpos : 0 < qhat.toNat := by
        rw [hq]
        apply Nat.succ_pos
      rw [toNat_sub_one hpos, hq, Nat.add_sub_cancel]
  . next hborrow =>
    have hzero : sub.2.toNat = 0 := by
      rw [ne_eq, not_not] at hborrow
      rw [hborrow, toNat_zero]
    obtain ⟨hq, hr⟩ := hexact hzero
    have htop : (sub.1.digit (j + n)).toNat = 0 := by
      by_contra h
      have := Nat.le_mul_of_pos_left (base p ^ n) (Nat.pos_of_ne_zero h)
      omega
    refine ⟨hslen, hsneg, ?_, hplen, ?_, ?_, hq⟩
    . intro i hi
      apply hsframe
      omega
    . apply BitVec.eq_of_toNat_eq
      rw [htop, toNat_zero]
    . rw [htop, Nat.zero_mul, Nat.add_zero] at hstop
      rw [← hr, hstop]
      rfl

end SpiderMonkey.BigInt
