import SpiderMonkey.BigInt.Impl.Div
import SpiderMonkey.BigInt.Lemmas.Shift

/-!
This module contains the specifications of the loops that long division is built from.
-/

namespace SpiderMonkey.BigInt

variable {p : Platform}

theorem sliceValue_succ_low (x : BigInt p) (s n : Nat)
    : x.sliceValue s (n + 1) = (x.digit s).toNat + base p * x.sliceValue (s + 1) n := by
  unfold sliceValue
  rw [Radix.value_succ_low]
  congr 2
  apply Radix.value_congr
  intro i _
  congr 2
  omega

theorem four_le_base : 4 ≤ base p := by
  rw [base_eq_half]
  exact Nat.mul_le_mul two_le_halfBase two_le_halfBase

theorem digitAdd_twice {a b c : Digit p}
    : let (sum, newCarry) := digitAdd a b 0
      let (sum, newCarry) := digitAdd sum c newCarry
      sum.toNat + newCarry.toNat * base p = a.toNat + b.toNat + c.toNat := by
  have hbase := four_le_base (p := p)
  have h1 := digitAdd_toNat a b 0 (by rw [toNat_zero]; omega)
  have hle := digitAdd_carry_le a b 0 (by rw [toNat_zero]; omega)
  rw [toNat_zero] at h1 hle
  have h2 := digitAdd_toNat (digitAdd a b 0).1 c (digitAdd a b 0).2 (by omega)
  dsimp only
  omega

theorem digitSub_twice {a b c : Digit p}
    : let (difference, newBorrow) := digitSub a b 0
      let (difference, newBorrow) := digitSub difference c newBorrow
      difference.toNat + b.toNat + c.toNat = a.toNat + newBorrow.toNat * base p := by
  have hbase := four_le_base (p := p)
  have h1 := digitSub_toNat a b 0 (by rw [toNat_zero]; omega)
  have hle := digitSub_borrow_le a b 0 (by rw [toNat_zero]; omega)
  rw [toNat_zero] at h1 hle
  have h2 := digitSub_toNat (digitSub a b 0).1 c (digitSub a b 0).2 (by omega)
  dsimp only
  omega

theorem le_one_of_mul_base_lt (h : c * base p < 2 * base p) : c ≤ 1 := by
  have := Nat.lt_of_mul_lt_mul_right h
  omega

theorem multiplyAddDigits_inv (source result : BigInt p) (factor summand : Digit p) (n : Nat)
    : (multiplyAddDigits source factor summand n result).1.digitLength = result.digitLength ∧
      (multiplyAddDigits source factor summand n result).1.isNegative = result.isNegative ∧
      (multiplyAddDigits source factor summand n result).1.sliceValue 0 n
        + ((multiplyAddDigits source factor summand n result).2.1.toNat
          + (multiplyAddDigits source factor summand n result).2.2.toNat) * base p ^ n
          =
        source.sliceValue 0 n * factor.toNat + summand.toNat := by
  unfold multiplyAddDigits
  apply Loop.fold_inv n _ _ (fun i (a : BigInt p × Digit p × Digit p) =>
    a.1.digitLength = result.digitLength ∧ a.1.isNegative = result.isNegative ∧
      a.1.sliceValue 0 i + (a.2.1.toNat + a.2.2.toNat) * base p ^ i
        = source.sliceValue 0 i * factor.toNat + summand.toNat)
  . dsimp only
    rw [toNat_zero]
    simp
  intro i _ ⟨r, carry, high⟩ ⟨hlen, hneg, hval⟩
  dsimp only at hlen hneg hval ⊢
  refine ⟨hlen, hneg, ?_⟩
  have hmul := digitMul_toNat (source.digit i) factor
  generalize digitMul (source.digit i) factor = prod at *
  have hadd := digitAdd_twice (a := prod.1) (b := high) (c := carry)
  dsimp only at hadd
  generalize digitAdd (digitAdd prod.1 high 0).1 carry (digitAdd prod.1 high 0).2 = sum at *
  have hdigit : sum.1.toNat + (sum.2.toNat + prod.2.toNat) * base p
      = (source.digit i).toNat * factor.toNat + (carry.toNat + high.toNat) := by
    rw [Nat.add_mul]
    omega
  have hstep := sliceValue_carry hval hdigit
  rw [Nat.zero_add] at hstep
  rw [hstep, sliceValue_succ, Nat.zero_add]
  ring

theorem internalMultiplyAdd_inv (source result : BigInt p) (factor summand : Digit p) (n : Nat)
    (hlen : result.digitLength = n + 1)
    : (internalMultiplyAdd source factor summand n result).digitLength = n + 1 ∧
      (internalMultiplyAdd source factor summand n result).isNegative = result.isNegative ∧
      (internalMultiplyAdd source factor summand n result).sliceValue 0 (n + 1)
        = source.sliceValue 0 n * factor.toNat + summand.toNat := by
  have ⟨hlen', hneg', hval⟩ := multiplyAddDigits_inv source result factor summand n
  unfold internalMultiplyAdd
  generalize multiplyAddDigits source factor summand n result = res at *
  obtain ⟨r, carry, high⟩ := res
  dsimp only at hlen' hneg' hval ⊢
  rw [hlen] at hlen'
  rw [if_pos (by omega), setDigit_digitLength, hlen', Nat.sub_self, Nat.fold_zero]
  refine ⟨hlen', hneg', ?_⟩
  have hlt : source.sliceValue 0 n * factor.toNat + summand.toNat < base p * base p ^ n := by
    have hsource := sliceValue_lt source 0 n
    have hfactor := toNat_lt_base factor
    have hsummand := toNat_lt_base summand
    calc source.sliceValue 0 n * factor.toNat + summand.toNat
        ≤ source.sliceValue 0 n * (base p - 1) + (base p - 1) := by
          apply Nat.add_le_add
          . apply Nat.mul_le_mul_left
            omega
          . omega
      _ = (source.sliceValue 0 n + 1) * (base p - 1) := by ring
      _ ≤ base p ^ n * (base p - 1) := Nat.mul_le_mul_right _ hsource
      _ < base p ^ n * base p := by
        apply Nat.mul_lt_mul_of_pos_left
        . omega
        . apply Nat.pow_pos base_pos
      _ = base p * base p ^ n := Nat.mul_comm _ _
  have hsum : (carry + high).toNat = carry.toNat + high.toNat := by
    apply toNat_add_of_lt
    apply Nat.lt_of_mul_lt_mul_right (a := base p ^ n)
    omega
  have hset := sliceValue_setDigit_last r 0 n (carry + high)
  rw [Nat.zero_add] at hset
  rw [hset, hsum, hval]

theorem absoluteInplaceAdd_inv (x summand : BigInt p) (start : Nat)
    : (absoluteInplaceAdd x summand start).1.digitLength = x.digitLength ∧
      (absoluteInplaceAdd x summand start).1.isNegative = x.isNegative ∧
      (∀ j, j < start ∨ start + summand.digitLength ≤ j → (absoluteInplaceAdd x summand start).1.digit j = x.digit j) ∧
      (absoluteInplaceAdd x summand start).2.toNat ≤ 1 ∧
      (absoluteInplaceAdd x summand start).1.sliceValue start summand.digitLength
        + (absoluteInplaceAdd x summand start).2.toNat * base p ^ summand.digitLength =
        x.sliceValue start summand.digitLength + summand.abs := by
  unfold absoluteInplaceAdd abs
  apply Loop.fold_inv summand.digitLength _ _ (fun i (a : BigInt p × Digit p) =>
    a.1.digitLength = x.digitLength ∧ a.1.isNegative = x.isNegative ∧
      (∀ j, j < start ∨ start + i ≤ j → a.1.digit j = x.digit j) ∧ a.2.toNat ≤ 1 ∧
      a.1.sliceValue start i + a.2.toNat * base p ^ i = x.sliceValue start i + summand.sliceValue 0 i)
  . dsimp only
    rw [toNat_zero]
    simp
  intro i _ ⟨r, carry⟩ ⟨hlen, hneg, hframe, hcarry, hval⟩
  dsimp only at hlen hneg hframe hcarry hval ⊢
  have hadd := digitAdd_twice (a := r.digit (start + i)) (b := summand.digit i) (c := carry)
  dsimp only at hadd
  generalize digitAdd (digitAdd (r.digit (start + i)) (summand.digit i) 0).1 carry
    (digitAdd (r.digit (start + i)) (summand.digit i) 0).2 = sum at *
  rw [hframe (start + i) (by omega)] at hadd
  refine ⟨hlen, hneg, ?_, ?_, ?_⟩
  . intro j hj
    rw [setDigit_digit_of_ne _ _ (by omega)]
    apply hframe
    omega
  . have h1 := toNat_lt_base (x.digit (start + i))
    have h2 := toNat_lt_base (summand.digit i)
    apply le_one_of_mul_base_lt (p := p)
    omega
  . rw [sliceValue_carry hval hadd, sliceValue_succ, sliceValue_succ, Nat.zero_add, Nat.add_mul]
    omega

theorem absoluteInplaceSub_inv (x subtrahend : BigInt p) (start : Nat)
    : (absoluteInplaceSub x subtrahend start).1.digitLength = x.digitLength ∧
      (absoluteInplaceSub x subtrahend start).1.isNegative = x.isNegative ∧
      (∀ j, j < start ∨ start + subtrahend.digitLength ≤ j
        → (absoluteInplaceSub x subtrahend start).1.digit j = x.digit j) ∧
      (absoluteInplaceSub x subtrahend start).2.toNat ≤ 1 ∧
      (absoluteInplaceSub x subtrahend start).1.sliceValue start subtrahend.digitLength + subtrahend.abs =
        x.sliceValue start subtrahend.digitLength
          + (absoluteInplaceSub x subtrahend start).2.toNat * base p ^ subtrahend.digitLength := by
  unfold absoluteInplaceSub abs
  apply Loop.fold_inv subtrahend.digitLength _ _ (fun i (a : BigInt p × Digit p) =>
    a.1.digitLength = x.digitLength ∧ a.1.isNegative = x.isNegative ∧
      (∀ j, j < start ∨ start + i ≤ j → a.1.digit j = x.digit j) ∧ a.2.toNat ≤ 1 ∧
      a.1.sliceValue start i + subtrahend.sliceValue 0 i = x.sliceValue start i + a.2.toNat * base p ^ i)
  . dsimp only
    rw [toNat_zero]
    simp
  intro i _ ⟨r, borrow⟩ ⟨hlen, hneg, hframe, hborrow, hval⟩
  dsimp only at hlen hneg hframe hborrow hval ⊢
  have hsub := digitSub_twice (a := r.digit (start + i)) (b := subtrahend.digit i) (c := borrow)
  dsimp only at hsub
  generalize digitSub (digitSub (r.digit (start + i)) (subtrahend.digit i) 0).1 borrow
    (digitSub (r.digit (start + i)) (subtrahend.digit i) 0).2 = difference at *
  rw [hframe (start + i) (by omega)] at hsub
  refine ⟨hlen, hneg, ?_, ?_, ?_⟩
  . intro j hj
    rw [setDigit_digit_of_ne _ _ (by omega)]
    apply hframe
    omega
  . have h1 := toNat_lt_base difference.1
    have h2 := toNat_lt_base (subtrahend.digit i)
    apply le_one_of_mul_base_lt (p := p)
    omega
  . rw [sliceValue_succ subtrahend, sliceValue_succ x, Nat.zero_add]
    exact sliceValue_borrow hval hsub

theorem productGreaterThan_iff (factor1 factor2 high low : Digit p)
    : productGreaterThan factor1 factor2 high low = true ↔
      high.toNat * base p + low.toNat < factor1.toNat * factor2.toNat := by
  have hmul := digitMul_toNat factor1 factor2
  unfold productGreaterThan
  generalize digitMul factor1 factor2 = prod at *
  have h1 := toNat_lt_base prod.1
  have h2 := toNat_lt_base low
  simp only [gt_iff_lt, Bool.or_eq_true, Bool.and_eq_true, decide_eq_true_eq, beq_iff_eq,
    BitVec.lt_def, BitVec.toNat_eq]
  rw [← hmul]
  rcases Nat.lt_trichotomy high.toNat prod.2.toNat with h | h | h
  . have : (high.toNat + 1) * base p ≤ prod.2.toNat * base p := Nat.mul_le_mul_right _ h
    rw [Nat.add_mul] at this
    constructor
    . intro _
      omega
    intro _
    left
    exact h
  . rw [h]
    omega
  . have : (prod.2.toNat + 1) * base p ≤ high.toNat * base p := Nat.mul_le_mul_right _ h
    rw [Nat.add_mul] at this
    omega

end SpiderMonkey.BigInt
