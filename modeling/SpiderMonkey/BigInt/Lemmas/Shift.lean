import Mathlib.Data.Rat.Floor
import SpiderMonkey.BigInt.Impl.Shift
import SpiderMonkey.BigInt.Lemmas.Basic
import SpiderMonkey.BigInt.Lemmas.Digit

/-!
This module contains the specifications of the shift operators.
-/

namespace SpiderMonkey.BigInt

variable {p : Platform}

theorem addOneDigits_inv (x result : BigInt p) (n : Nat)
    : (addOneDigits x result n).1.digitLength = result.digitLength ∧
      (addOneDigits x result n).1.isNegative = result.isNegative ∧
      (addOneDigits x result n).2.toNat ≤ 1 ∧
      (addOneDigits x result n).1.sliceValue 0 n + (addOneDigits x result n).2.toNat * base p ^ n =
        x.sliceValue 0 n + 1 := by
  unfold addOneDigits
  apply Loop.fold_inv n _ _ (fun i (a : BigInt p × Digit p) =>
    a.1.digitLength = result.digitLength ∧ a.1.isNegative = result.isNegative ∧
      a.2.toNat ≤ 1 ∧ a.1.sliceValue 0 i + a.2.toNat * base p ^ i = x.sliceValue 0 i + 1)
  . dsimp only
    rw [toNat_one]
    simp
  intro i _ ⟨r, c⟩ ⟨hlen, hneg, hc, hval⟩
  dsimp only at hlen hneg hc hval ⊢
  have hsum := digitAdd_toNat (x.digit i) c 0 (by rw [toNat_zero]; exact one_lt_base)
  have hle := digitAdd_carry_le (x.digit i) c 0 (by rw [toNat_zero]; exact one_lt_base)
  generalize digitAdd (x.digit i) c 0 = res at *
  rw [toNat_zero, Nat.zero_mul, Nat.add_zero] at hsum
  rw [toNat_zero] at hle
  refine ⟨hlen, hneg, by omega, ?_⟩
  have hstep := sliceValue_carry hval hsum
  rw [Nat.zero_add] at hstep
  rw [hstep, sliceValue_succ, Nat.zero_add]
  omega

theorem sliceValue_succ_eq_pow_iff (x : BigInt p) (s n : Nat)
    : x.sliceValue s n + 1 = base p ^ n ↔ ∀ i, i < n → x.digit (s + i) = digitMax p := by
  unfold sliceValue
  rw [Radix.value_succ_eq_pow_iff base_pos]
  . simp only [BitVec.toNat_eq, digitMax, BitVec.toNat_allOnes]
    rfl
  . intro i _
    apply toNat_lt_base

theorem absoluteAddOne_ensures (x : BigInt p) (b : Bool)
    : Ensures (absoluteAddOne x b) (Is b (x.abs + 1)) := by
  unfold absoluteAddOne
  apply Ensures.bind (createUninitialized_ensures _ _)
  intro r ⟨hlen, hneg, hmax⟩
  have ⟨hlen', hneg', hcarry, hval⟩ := addOneDigits_inv x r x.digitLength
  generalize addOneDigits x r x.digitLength = res at *
  obtain ⟨r', carry⟩ := res
  dsimp only at hlen' hneg' hcarry hval ⊢
  have hoverflow : (List.range x.digitLength).all (fun i => x.digit i == digitMax p) = true
      ↔ x.abs + 1 = base p ^ x.digitLength := by
    unfold abs
    rw [sliceValue_succ_eq_pow_iff]
    simp
  have habs_lt := abs_lt x
  have hr'_lt := sliceValue_lt r' 0 x.digitLength
  change r'.sliceValue 0 x.digitLength + carry.toNat * base p ^ x.digitLength = x.abs + 1 at hval
  have hc : carry.toNat = 0 ∨ carry.toNat = 1 := by omega
  have hzero {r : BigInt p} (habs : r.abs = x.abs + 1) (hzero : r.digitLength = 0) : b = false := by
    simp [abs, hzero] at habs
  cases hall : (List.range x.digitLength).all (fun i => x.digit i == digitMax p) with
  | true =>
    have hpow := hoverflow.mp hall
    rw [hall, Bool.toNat_true] at hlen hmax
    rw [Bool.toNat_true, if_pos (by omega)]
    have habs : (r'.setDigit x.digitLength 1).abs = x.abs + 1 := by
      have hset := sliceValue_setDigit_last r' 0 x.digitLength 1
      rw [Nat.zero_add, toNat_one] at hset
      rw [abs, setDigit_digitLength, hlen', hlen, hset]
      rcases hc with hc | hc
      all_goals
        rw [hc] at hval
        omega
    refine trim_ensures (hneg'.trans hneg) ?_ (hzero habs) habs
    rw [setDigit_digitLength]
    omega
  | false =>
    have hpow : x.abs + 1 ≠ base p ^ x.digitLength := by
      intro h
      rw [hoverflow.mpr h] at hall
      contradiction
    rw [hall, Bool.toNat_false] at hlen hmax
    rw [Bool.toNat_false, if_neg (by omega)]
    have habs : r'.abs = x.abs + 1 := by
      rw [abs, hlen', hlen, Nat.add_zero]
      rcases hc with hc | hc
      all_goals
        rw [hc] at hval
        omega
    exact trim_ensures (hneg'.trans hneg) (by omega) (hzero habs) habs

theorem shiftLeftDigits_inv (x result : BigInt p) {shift : Nat} (hshift : shift ≤ digitBits p) (dst n : Nat)
    : (shiftLeftDigits x shift result dst n).1.digitLength = result.digitLength ∧
      (shiftLeftDigits x shift result dst n).1.isNegative = result.isNegative ∧
      (∀ j, j < dst → (shiftLeftDigits x shift result dst n).1.digit j = result.digit j) ∧
      (shiftLeftDigits x shift result dst n).2.toNat < 2 ^ shift ∧
      (shiftLeftDigits x shift result dst n).1.sliceValue dst n
        + (shiftLeftDigits x shift result dst n).2.toNat * base p ^ n =
        x.sliceValue 0 n * 2 ^ shift := by
  unfold shiftLeftDigits
  apply Loop.fold_inv n _ _ (fun i (a : BigInt p × Digit p) =>
    a.1.digitLength = result.digitLength ∧ a.1.isNegative = result.isNegative ∧
      (∀ j, j < dst → a.1.digit j = result.digit j) ∧ a.2.toNat < 2 ^ shift ∧
      a.1.sliceValue dst i + a.2.toNat * base p ^ i = x.sliceValue 0 i * 2 ^ shift)
  . dsimp only
    rw [toNat_zero]
    simp
  intro i _ ⟨r, c⟩ ⟨hlen, hneg, hlow, hc, hval⟩
  dsimp only at hlen hneg hlow hc hval ⊢
  refine ⟨hlen, hneg, ?_, toNat_ushiftRight_lt hshift _, ?_⟩
  . intro j hj
    rw [setDigit_digit_of_ne _ _ (by omega)]
    exact hlow j hj
  have hdigit := toNat_shiftLeft_or hshift (x.digit i) c hc
  rw [sliceValue_setDigit_last, Radix.carry_step hdigit, sliceValue_succ, Nat.zero_add,
    Nat.add_mul, Nat.add_mul, ← hval]
  ring

theorem shiftRightDigits_inv (x result : BigInt p) (src : Nat) {shift : Nat}
    (hshift : shift ≤ digitBits p) (last : Nat)
    : (shiftRightDigits x src shift result last).1.digitLength = result.digitLength ∧
      (shiftRightDigits x src shift result last).1.isNegative = result.isNegative ∧
      (shiftRightDigits x src shift result last).2.toNat < 2 ^ (digitBits p - shift) ∧
      (shiftRightDigits x src shift result last).1.sliceValue 0 last
        + (shiftRightDigits x src shift result last).2.toNat * base p ^ last =
        x.sliceValue src (last + 1) / 2 ^ shift := by
  have hpow : 2 ^ (digitBits p - shift) * 2 ^ shift = base p := two_pow_mul_two_pow_sub hshift
  have hsub : digitBits p - (digitBits p - shift) = shift := by omega
  have hcarry : ∀ (d : Digit p), (d >>> shift).toNat < 2 ^ (digitBits p - shift) := by
    intro d
    have := toNat_ushiftRight_lt (s := digitBits p - shift) (by omega) d
    rwa [hsub] at this
  unfold shiftRightDigits
  apply Loop.fold_inv last _ _ (fun i (a : BigInt p × Digit p) =>
    a.1.digitLength = result.digitLength ∧ a.1.isNegative = result.isNegative ∧ a.2.toNat < 2 ^ (digitBits p - shift) ∧
      a.1.sliceValue 0 i + a.2.toNat * base p ^ i = x.sliceValue src (i + 1) / 2 ^ shift)
  . dsimp only
    refine ⟨rfl, rfl, hcarry _, ?_⟩
    rw [sliceValue_succ, BitVec.toNat_ushiftRight, Nat.shiftRight_eq_div_pow]
    simp
  intro i _ ⟨r, c⟩ ⟨hlen, hneg, hc, hval⟩
  dsimp only at hlen hneg hc hval ⊢
  refine ⟨hlen, hneg, hcarry _, ?_⟩
  have hdigit := toNat_shiftLeft_or (s := digitBits p - shift) (by omega) (x.digit (i + src + 1)) c hc
  rw [hsub] at hdigit
  have hset := sliceValue_setDigit_last r 0 i ((x.digit (i + src + 1) <<< (digitBits p - shift)) ||| c)
  rw [Nat.zero_add] at hset
  have hnext : (x.digit (i + src + 1)).toNat * base p ^ (i + 1)
      = (x.digit (i + src + 1)).toNat * 2 ^ (digitBits p - shift) * base p ^ i * 2 ^ shift := by
    rw [pow_succ, ← hpow]
    ring
  rw [hset, Radix.carry_step hdigit, sliceValue_succ, show src + (i + 1) = i + src + 1 by omega,
    hnext, Nat.add_mul_div_right _ _ (by positivity), ← hval]
  ring

theorem abs_lt_two_pow {x : BigInt p} (hx : Canonical x) : x.abs < 2 ^ maxBitLength := by
  apply Nat.lt_of_lt_of_le (abs_lt x)
  unfold base
  rw [← Nat.pow_mul]
  apply Nat.pow_le_pow_right (by omega)
  have hle := hx.length_le
  unfold maxDigitLength at hle
  calc digitBits p * x.digitLength
      ≤ digitBits p * (maxBitLength / digitBits p) := Nat.mul_le_mul_left _ hle
    _ ≤ maxBitLength := Nat.mul_div_le _ _

theorem abs_of_length_one {x : BigInt p} (h : x.digitLength = 1) : x.abs = (x.digit 0).toNat := by
  unfold abs
  rw [h, sliceValue_succ]
  simp

theorem base_le_abs {x : BigInt p} (hx : Canonical x) (h : 1 < x.digitLength) : base p ≤ x.abs := by
  apply Nat.le_trans _ (hx.base_pow_le_abs (by omega))
  exact Nat.le_self_pow (by omega) _

theorem maxBitLength_lt_base : maxBitLength < base p := by
  unfold base digitBits
  split <;> decide

/--
The dropped bits and the kept ones of a shift by `digitShift` digits and `bitsShift` bits.
-/
theorem sliceValue_split (x : BigInt p) (h : digitShift ≤ x.digitLength)
    : x.abs = x.sliceValue 0 digitShift
        + base p ^ digitShift * x.sliceValue digitShift (x.digitLength - digitShift) := by
  unfold abs
  have := sliceValue_add x 0 digitShift (x.digitLength - digitShift)
  rw [Nat.add_sub_cancel' h, Nat.zero_add] at this
  exact this

theorem abs_div_base_pow (x : BigInt p) (h : digitShift ≤ x.digitLength)
    : x.abs / base p ^ digitShift = x.sliceValue digitShift (x.digitLength - digitShift) := by
  have hpos : 0 < base p ^ digitShift := Nat.pow_pos base_pos
  rw [sliceValue_split x h, Nat.add_mul_div_left _ _ hpos, Nat.div_eq_of_lt (sliceValue_lt _ _ _), Nat.zero_add]

theorem abs_mod_base_pow (x : BigInt p) (h : digitShift ≤ x.digitLength)
    : x.abs % base p ^ digitShift = x.sliceValue 0 digitShift := by
  rw [sliceValue_split x h, Nat.add_mul_mod_self_left, Nat.mod_eq_of_lt (sliceValue_lt _ _ _)]

theorem two_pow_shift (shift : Nat)
    : 2 ^ shift = base p ^ (shift / digitBits p) * 2 ^ (shift % digitBits p) := by
  unfold base
  rw [← Nat.pow_mul, ← Nat.pow_add, Nat.div_add_mod]

theorem toNat_and_mask (hs : s < digitBits p) (d : Digit p)
    : (d &&& ((1 : Digit p) <<< s - 1)).toNat = d.toNat % 2 ^ s := by
  have hlt : 2 ^ s < base p := Nat.pow_lt_pow_right (by omega) hs
  have hone : ((1 : Digit p) <<< s).toNat = 2 ^ s := by
    rw [toNat_shiftLeft_of_lt] <;> rw [toNat_one, Nat.one_mul]
    exact hlt
  have hmask : ((1 : Digit p) <<< s - 1).toNat = 2 ^ s - 1 := by
    rw [BitVec.toNat_sub_of_le]
    . rw [hone, toNat_one]
    . rw [BitVec.le_def, hone, toNat_one]
      exact Nat.one_le_two_pow
  rw [BitVec.toNat_and, hmask, Nat.and_two_pow_sub_one_eq_mod]

/--
The result is rounded exactly when a negative number is not a multiple of the power of two.
-/
theorem mustRoundDown_iff (x : BigInt p) {shift : Nat} (h : shift / digitBits p < x.digitLength)
    : mustRoundDown x (shift / digitBits p) (shift % digitBits p) = true ↔
      x.isNegative = true ∧ x.abs % 2 ^ shift ≠ 0 := by
  have hbits : shift % digitBits p < digitBits p := by
    apply Nat.mod_lt
    have := two_le_digitBits (p := p)
    omega
  have hfirst : x.sliceValue (shift / digitBits p) (x.digitLength - shift / digitBits p) % 2 ^ (shift % digitBits p)
      = (x.digit (shift / digitBits p)).toNat % 2 ^ (shift % digitBits p) := by
    obtain ⟨n, hn⟩ := Nat.exists_eq_add_of_lt h
    have hsplit := sliceValue_add x (shift / digitBits p) 1 n
    rw [hn, show shift / digitBits p + n + 1 - shift / digitBits p = 1 + n by omega, hsplit,
      pow_one, ← two_pow_mul_two_pow_sub hbits.le, Nat.mul_comm (2 ^ _) (2 ^ (shift % digitBits p)),
      Nat.mul_assoc, Nat.add_mul_mod_self_left, sliceValue_succ]
    simp
  have hdigits : (List.range (shift / digitBits p)).any (fun i => x.digit i != 0) = true
      ↔ x.sliceValue 0 (shift / digitBits p) ≠ 0 := by
    rw [ne_eq, sliceValue_eq_zero_iff]
    simp
  unfold mustRoundDown
  dsimp only
  rw [Bool.and_eq_true, Bool.or_eq_true, hdigits, two_pow_shift (p := p), Nat.mod_mul,
    abs_mod_base_pow x h.le, abs_div_base_pow x h.le, hfirst, bne_iff_ne, ne_eq, BitVec.toNat_eq,
    toNat_and_mask hbits, toNat_zero]
  have hpos : 0 < base p ^ (shift / digitBits p) := Nat.pow_pos base_pos
  apply and_congr_right
  intro _
  rw [ne_eq, ne_eq, Nat.add_eq_zero_iff, Nat.mul_eq_zero]
  have := hpos.ne'
  tauto

end SpiderMonkey.BigInt
