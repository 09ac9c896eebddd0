import SpiderMonkey.BigInt.Impl.PortableDigit
import SpiderMonkey.BigInt.Lemmas.DigitDiv
import SpiderMonkey.Lib.OptionBind

/-!
This module contains the main result about `digitMul` and `digitDiv` where there are neither two digit integers nor an
instruction that divides them.
-/

namespace SpiderMonkey.BigInt.Portable

open BitVec

variable {p : Platform}

theorem shiftLeft_of_lt (h : n < digitBits p) (x : Digit p) : shiftLeft x n = some (x <<< n) := if_pos h

theorem shiftRight_of_lt (h : n < digitBits p) (x : Digit p) : shiftRight x n = some (x >>> n) := if_pos h

theorem quotient_of_pos (h : 0 < y.toNat) (x : Digit p) : quotient x y = some (x / y) := by
  apply if_pos
  intro hzero
  rw [hzero, toNat_zero] at h
  omega

theorem halfDigitBits_lt : halfDigitBits p < digitBits p := by
  have := two_le_digitBits (p := p)
  unfold halfDigitBits
  omega

theorem digitMul_eq (a b : Digit p)
    : ∃ low high, digitMul a b = some (low, high) ∧ low.toNat + high.toNat * base p = a.toNat * b.toNat := by
  unfold digitMul
  simp only [shiftRight_of_lt halfDigitBits_lt, shiftLeft_of_lt halfDigitBits_lt, some_bind]
  exact ⟨_, _, rfl, half_product_toNat a b⟩

theorem sZeroMask_eq (hs : s < digitBits p) : sZeroMask p s = if s = 0 then 0 else digitMax p := by
  have hbits : digitBits p < 2 ^ (digitBits p - 1) := by
    unfold digitBits
    split <;> decide
  have hpow : 2 * 2 ^ (digitBits p - 1) = 2 ^ digitBits p := by
    rw [← Nat.pow_succ', Nat.succ_eq_add_one, Nat.sub_add_cancel (by omega)]
  have hs' : (BitVec.ofNat (digitBits p) s).toNat = s := by
    rw [toNat_ofNat]
    apply Nat.mod_eq_of_lt
    omega
  have hneg : (-BitVec.ofNat (digitBits p) s).toInt = -(s : Int) := by
    rw [toInt_neg_of_ne_intMin, toInt_eq_toNat_of_lt, hs']
    . omega
    intro hmin
    rw [hmin, toNat_intMin_of_pos (by omega)] at hs'
    omega
  unfold sZeroMask
  apply eq_of_toInt_eq
  rw [toInt_sshiftRight, hneg, Int.shiftRight_eq_div_pow]
  by_cases hzero : s = 0
  . rw [if_pos hzero, hzero]
    simp
  rw [if_neg hzero, digitMax, toInt_allOnes, if_pos (by omega)]
  have : ((2 ^ (digitBits p - 1) : Nat) : Int) = (2 ^ (digitBits p - 1) : Int) := by norm_num
  apply Int.ediv_eq_neg_one_of_neg_of_le <;> omega

-- The high half digit of the divisor is at least half of what it can be, so the second round at the latest breaks.
theorem lowerEstimate_eq (vn0 un q : Digit p) {vn1 rhat : Digit p} (hvn1 : halfBase p ≤ 2 * vn1.toNat)
    (hvn1_lt : vn1.toNat < halfBase p) (hrhat : rhat.toNat < halfBase p) (hrounds : 2 ≤ rounds)
    : lowerEstimate vn1 vn0 un rounds q rhat = some (lowerHalfEstimate vn1 vn0 un q rhat) := by
  have hbase : 2 * halfBase p ≤ base p := by
    rw [base_eq_half]
    exact Nat.mul_le_mul_right _ two_le_halfBase
  have hadd : ∀ r : Digit p, r.toNat < halfBase p → (r + vn1).toNat = r.toNat + vn1.toNat := by
    intro r hr
    apply toNat_add_of_lt
    omega
  have hgoon : ∀ r : Digit p, ¬r ≥ halfDigitBase p → r.toNat < halfBase p := by
    intro r hr
    rw [ge_iff_le, le_def, toNat_halfDigitBase] at hr
    omega
  obtain ⟨rounds, rfl⟩ : ∃ n, rounds = n + 2 := ⟨rounds - 2, by omega⟩
  unfold lowerEstimate lowerHalfEstimate
  split
  . dsimp only
    split
    . rfl
    next hlt =>
    have hlt := hgoon _ hlt
    rw [dif_pos (by rw [lt_def, hadd rhat hrhat]; omega)]
    unfold lowerEstimate lowerHalfEstimate
    split
    . have hbreak : rhat + vn1 + vn1 ≥ halfDigitBase p := by
        rw [ge_iff_le, le_def, toNat_halfDigitBase, hadd _ hlt, hadd rhat hrhat]
        omega
      dsimp only
      rw [if_pos hbreak, if_pos hbreak]
    . rfl
  . rfl

theorem digitDiv_eq {high low divisor : Digit p} (h : high.toNat < divisor.toNat)
    : ∃ q r, (∀ rounds ≥ 2, digitDiv rounds high low divisor = some (q, r)) ∧
        q.toNat = (high.toNat * base p + low.toNat) / divisor.toNat ∧
        r.toNat = (high.toNat * base p + low.toNat) % divisor.toNat := by
  have hne : divisor ≠ 0 := by
    intro hzero
    rw [hzero, toNat_zero] at h
    omega
  have hs := digitLeadingZeroes_lt hne
  have hmask : (digitBits p - digitLeadingZeroes divisor) &&& (digitBits p - 1) < digitBits p := by
    have := Nat.and_le_right (n := digitBits p - digitLeadingZeroes divisor) (m := digitBits p - 1)
    have := two_le_digitBits (p := p)
    omega
  have hvn1 := halfBase_le_high_half (base_le_normalize hne)
  have hvn1_lt : (divisor <<< digitLeadingZeroes divisor >>> halfDigitBits p).toNat < halfBase p := by
    rw [toNat_ushiftRight_half]
    apply div_halfBase_lt
  have hvn1_pos : 0 < (divisor <<< digitLeadingZeroes divisor >>> halfDigitBits p).toNat := by
    have := two_le_halfBase (p := p)
    omega
  refine ⟨_, _, fun rounds hrounds => ?_, two_rounds_toNat h⟩
  have hlower (un un' : Digit p) :=
    lowerEstimate_eq (divisor <<< digitLeadingZeroes divisor &&& halfDigitMask p) un
      (un' / (divisor <<< digitLeadingZeroes divisor >>> halfDigitBits p)) hvn1 hvn1_lt
      (Nat.lt_trans (toNat_sub_udiv_mul un' _ ▸ Nat.mod_lt _ hvn1_pos) hvn1_lt) hrounds
  unfold digitDiv
  simp only [guard, lt_def, h, Nat.ne_of_lt hs, ne_eq, not_false_iff, if_true, shiftLeft_of_lt hs,
    shiftRight_of_lt hs, shiftRight_of_lt halfDigitBits_lt, shiftRight_of_lt hmask, sZeroMask_eq hs,
    masked_ushiftRight hs, quotient_of_pos hvn1_pos, hlower, Option.bind_eq_bind, Option.bind_some, Option.pure_def]

/--
`digitMul` and `digitDiv` are exact, no shift is out of range, and each correction loop ends in its second round at the
latest.
-/
theorem portable_exact (p : Platform)
    : (∀ a b : Digit p, ∃ low high, digitMul a b = some (low, high) ∧
        low.toNat = a.toNat * b.toNat % 2 ^ digitBits p ∧ high.toNat = a.toNat * b.toNat / 2 ^ digitBits p) ∧
      ∀ high low divisor : Digit p, high < divisor →
        ∃ quotient remainder, (∀ rounds ≥ 2, digitDiv rounds high low divisor = some (quotient, remainder)) ∧
          quotient.toNat = (high.toNat * 2 ^ digitBits p + low.toNat) / divisor.toNat ∧
          remainder.toNat = (high.toNat * 2 ^ digitBits p + low.toNat) % divisor.toNat := by
  refine ⟨fun a b => ?_, fun high low divisor h => digitDiv_eq h⟩
  obtain ⟨low, high, hmul, hvalue⟩ := digitMul_eq a b
  have hlow := toNat_lt_base low
  unfold base at hvalue hlow
  refine ⟨low, high, hmul, ?_, ?_⟩
  . rw [← hvalue, Nat.add_mul_mod_self_right, Nat.mod_eq_of_lt hlow]
  . rw [← hvalue, Nat.add_mul_div_right _ _ (by positivity), Nat.div_eq_of_lt hlow, Nat.zero_add]

theorem portable_exact_sixtyFour
    : ∃ q r : Digit ⟨true, false, false⟩, (∀ rounds ≥ 2, digitDiv rounds 1 0 3 = some (q, r)) ∧
        q.toNat = 2 ^ 64 / 3 ∧ r.toNat = 2 ^ 64 % 3 := by
  obtain ⟨q, r, hrun, hq, hr⟩ := (portable_exact ⟨true, false, false⟩).2 1 0 3 (by decide)
  exact ⟨q, r, hrun, hq.trans (by decide), hr.trans (by decide)⟩

end SpiderMonkey.BigInt.Portable
