import SpiderMonkey.BigInt.Spec
import SpiderMonkey.Lib.Loop

/-!
This module contains the specifications of allocating, copying and trimming.
-/

namespace SpiderMonkey.BigInt

variable {p : Platform}

theorem createUninitialized_ensures (n : Nat) (b : Bool)
    : Ensures (createUninitialized n b : JSM p (BigInt p))
        (fun r => r.digitLength = n ∧ r.isNegative = b ∧ n ≤ maxDigitLength p) := by
  unfold createUninitialized
  apply Ensures.ite
  . intro _
    apply Ensures.throw
  intro hn
  apply Ensures.bind (Ensures.true _)
  intro digits _
  apply Ensures.pure
  refine ⟨rfl, rfl, ?_⟩
  omega

theorem zero_ensures
    : Ensures (zero : JSM p (BigInt p)) (fun r => r.digitLength = 0 ∧ r.isNegative = false) := by
  apply Ensures.mono (createUninitialized_ensures 0 false)
  intro r hr
  exact ⟨hr.1, hr.2.1⟩

theorem canonical_of_length_zero (hlen : x.digitLength = 0) (hneg : x.isNegative = false) : Canonical x := by
  constructor
  . omega
  . intro h
    contradiction
  . intro _
    exact hneg

theorem canonical_of_le_abs {x : BigInt p} (hmax : x.digitLength ≤ maxDigitLength p)
    (hpos : 0 < x.digitLength) (habs : base p ^ (x.digitLength - 1) ≤ x.abs) : Canonical x := by
  constructor
  . exact hmax
  . intro _ hzero
    have hsucc := sliceValue_succ x 0 (x.digitLength - 1)
    rw [Nat.zero_add, hzero, Nat.sub_add_cancel hpos] at hsucc
    have hlt := sliceValue_lt x 0 (x.digitLength - 1)
    rw [abs, hsucc] at habs
    simp at habs
    omega
  . intro hzero
    omega

theorem toInt_of_length_zero {x : BigInt p} (hlen : x.digitLength = 0) : x.toInt = 0 := by
  simp [toInt, abs, hlen]

theorem zero_ensures_toInt
    : Ensures (zero : JSM p (BigInt p)) (fun r => Canonical r ∧ r.toInt = 0) := by
  apply Ensures.mono zero_ensures
  intro r hr
  exact ⟨canonical_of_length_zero hr.1 hr.2, toInt_of_length_zero hr.1⟩

theorem one_le_maxDigitLength : 1 ≤ maxDigitLength p := by
  unfold maxDigitLength maxBitLength digitBits
  split <;> omega

theorem createFromDigit_ensures (hd : d ≠ 0) (b : Bool)
    : Ensures (createFromDigit d b) (fun r => Canonical r ∧ r.abs = d.toNat ∧ r.isNegative = b) := by
  unfold createFromDigit
  apply Ensures.bind (createUninitialized_ensures 1 b)
  intro r ⟨hlen, hneg, _⟩
  apply Ensures.pure
  refine ⟨?_, ?_, ?_⟩
  . constructor
    . simp only [setDigit_digitLength, hlen]
      apply one_le_maxDigitLength
    . intro _
      simpa [hlen] using hd
    . simp [hlen]
  . have := sliceValue_setDigit_last r 0 0 d
    simpa [abs, hlen] using this
  . simpa using hneg

theorem copyDigits_succ (x result : BigInt p) (src dst n : Nat)
    : copyDigits x src result dst (n + 1) = (copyDigits x src result dst n).setDigit (dst + n) (x.digit (src + n)) := by
  simp [copyDigits]

@[simp]
theorem copyDigits_digitLength (x result : BigInt p) (src dst n : Nat)
    : (copyDigits x src result dst n).digitLength = result.digitLength := by
  induction n with
  | zero => rfl
  | succ n ih => rw [copyDigits_succ, setDigit_digitLength, ih]

@[simp]
theorem copyDigits_isNegative (x result : BigInt p) (src dst n : Nat)
    : (copyDigits x src result dst n).isNegative = result.isNegative := by
  induction n with
  | zero => rfl
  | succ n ih => rw [copyDigits_succ, setDigit_isNegative, ih]

theorem copyDigits_digit (x result : BigInt p) (src dst n i : Nat)
    : (copyDigits x src result dst n).digit i =
      if dst ≤ i ∧ i < dst + n then x.digit (src + (i - dst)) else result.digit i := by
  induction n with
  | zero =>
    rw [if_neg (by omega)]
    rfl
  | succ n ih =>
    rw [copyDigits_succ, setDigit_digit]
    split
    . next hi =>
      subst hi
      rw [if_pos (by omega)]
      congr 2
      omega
    . rw [ih]
      congr 1
      apply propext
      omega

theorem copyDigits_sliceValue (x result : BigInt p) (src dst n : Nat)
    : (copyDigits x src result dst n).sliceValue dst n = x.sliceValue src n := by
  apply sliceValue_congr
  intro i hi
  rw [copyDigits_digit, if_pos (by omega)]
  congr 1
  omega

theorem copy_ensures (hx : Canonical x)
    : Ensures (copy x) (fun r => Canonical r ∧ r.abs = x.abs ∧ r.isNegative = x.isNegative ∧
          r.digitLength = x.digitLength) := by
  unfold copy
  apply Ensures.ite
  . intro hzero
    have hlen : x.digitLength = 0 := by simpa [isZero] using hzero
    apply Ensures.mono zero_ensures
    rintro r ⟨hr, hneg⟩
    refine ⟨canonical_of_length_zero hr hneg, ?_, ?_, ?_⟩
    . simp [abs, hr, hlen]
    . rw [hneg, hx.zero_nonneg hlen]
    . rw [hr, hlen]
  intro _
  apply Ensures.bind (createUninitialized_ensures _ _)
  rintro r ⟨hlen, hneg, hmax⟩
  apply Ensures.pure
  refine ⟨?_, ?_, ?_, ?_⟩
  . constructor
    . simpa [hlen] using hmax
    . intro h
      simp only [copyDigits_digitLength, hlen] at h ⊢
      rw [copyDigits_digit, if_pos (by omega)]
      simpa using hx.msd_ne_zero h
    . simp only [copyDigits_digitLength, hlen, copyDigits_isNegative, hneg]
      exact hx.zero_nonneg
  . unfold abs
    rw [copyDigits_digitLength, hlen, copyDigits_sliceValue]
  . simpa using hneg
  . simpa using hlen

theorem neg_ensures {x : BigInt p} (hx : Canonical x)
    : Ensures (neg x) (fun r => Canonical r ∧ r.toInt = -x.toInt) := by
  unfold neg
  apply Ensures.ite
  . intro hzero
    have hlen : x.digitLength = 0 := by simpa [isZero] using hzero
    apply Ensures.pure
    refine ⟨hx, ?_⟩
    rw [toInt_of_length_zero hlen]
    rfl
  intro hzero
  have hlen : x.digitLength ≠ 0 := by simpa [isZero] using hzero
  apply Ensures.bind (copy_ensures hx)
  intro r ⟨hr, habs, hneg, hrlen⟩
  apply Ensures.pure
  refine ⟨⟨hr.length_le, hr.msd_ne_zero, ?_⟩, ?_⟩
  . intro h
    dsimp only at h
    omega
  have : ({ r with isNegative := !r.isNegative } : BigInt p).abs = x.abs := habs
  unfold toInt
  rw [this]
  cases h : x.isNegative <;> simp [hneg, h]

theorem nonZeroLength_le (digit : Nat → Digit p) (n : Nat) : nonZeroLength digit n ≤ n := by
  induction n with
  | zero => simp [nonZeroLength]
  | succ n ih =>
    unfold nonZeroLength
    split <;> omega

theorem nonZeroLength_digit_eq_zero (digit : Nat → Digit p) (n i : Nat)
    (hi : nonZeroLength digit n ≤ i) (hn : i < n) : digit i = 0 := by
  induction n with
  | zero => omega
  | succ n ih =>
    unfold nonZeroLength at hi
    split at hi
    . next hzero =>
      by_cases h : i = n
      . rw [h, hzero]
      . apply ih hi
        omega
    . omega

theorem nonZeroLength_digit_ne_zero (digit : Nat → Digit p) (n : Nat)
    (h : nonZeroLength digit n ≠ 0) : digit (nonZeroLength digit n - 1) ≠ 0 := by
  induction n with
  | zero => simp [nonZeroLength] at h
  | succ n ih =>
    unfold nonZeroLength at h ⊢
    split
    . next hzero =>
      rw [if_pos hzero] at h
      exact ih h
    . simpa

theorem sliceValue_nonZeroLength (x : BigInt p)
    : x.sliceValue 0 (nonZeroLength x.digit x.digitLength) = x.abs := by
  symm
  apply Radix.value_trim
  . apply nonZeroLength_le
  intro i hi hn
  rw [Nat.zero_add, nonZeroLength_digit_eq_zero _ _ _ hi hn]
  rfl

theorem trimHighZeroDigits_abs (x : BigInt p) : x.trimHighZeroDigits.abs = x.abs := by
  unfold trimHighZeroDigits
  split
  . rfl
  . exact sliceValue_nonZeroLength x

@[simp]
theorem trimHighZeroDigits_isNegative (x : BigInt p)
    : x.trimHighZeroDigits.isNegative = x.isNegative := by
  unfold trimHighZeroDigits
  split <;> rfl

theorem trimHighZeroDigits_length_le (x : BigInt p)
    : x.trimHighZeroDigits.digitLength ≤ x.digitLength := by
  unfold trimHighZeroDigits
  split
  . exact Nat.le_refl _
  . apply nonZeroLength_le

theorem trimHighZeroDigits_length_pos {x : BigInt p} (h : 0 < x.digitLength)
    : 0 < x.trimHighZeroDigits.digitLength := by
  unfold trimHighZeroDigits
  split
  . exact h
  . next hnz => exact Nat.pos_of_ne_zero hnz

theorem trimHighZeroDigits_canonical {x : BigInt p} (hlen : x.digitLength ≤ maxDigitLength p)
    (habs : x.abs ≠ 0) : Canonical x.trimHighZeroDigits := by
  have hnz : nonZeroLength x.digit x.digitLength ≠ 0 := by
    intro h
    rw [← sliceValue_nonZeroLength, h] at habs
    simp at habs
  unfold trimHighZeroDigits
  rw [if_neg hnz]
  constructor
  . exact Nat.le_trans (nonZeroLength_le _ _) hlen
  . intro _
    exact nonZeroLength_digit_ne_zero _ _ hnz
  . intro h
    contradiction

theorem destructivelyTrimHighZeroDigits_ensures {x : BigInt p}
    (hlen : x.digitLength ≤ maxDigitLength p) (hneg : x.digitLength = 0 → x.isNegative = false)
    : Ensures (destructivelyTrimHighZeroDigits x) (fun r => Canonical r ∧ r.toInt = x.toInt) := by
  have htrim : nonZeroLength x.digit x.digitLength ≠ 0
      → Canonical x.trimHighZeroDigits ∧ x.trimHighZeroDigits.toInt = x.toInt := by
    intro hnz
    constructor
    . apply trimHighZeroDigits_canonical hlen
      rw [← sliceValue_nonZeroLength]
      intro h
      have := (sliceValue_eq_zero_iff _ _ _).mp h (nonZeroLength x.digit x.digitLength - 1) (by omega)
      rw [Nat.zero_add] at this
      exact nonZeroLength_digit_ne_zero _ _ hnz this
    . unfold toInt
      rw [trimHighZeroDigits_abs, trimHighZeroDigits_isNegative]
  unfold destructivelyTrimHighZeroDigits
  apply Ensures.ite
  . intro hzero
    have : x.digitLength = 0 := by simpa [isZero] using hzero
    apply Ensures.pure
    exact ⟨canonical_of_length_zero this (hneg this), rfl⟩
  intro _
  apply Ensures.ite
  . intro hnz
    apply Ensures.mono zero_ensures_toInt
    intro r ⟨hr, hr0⟩
    refine ⟨hr, ?_⟩
    have : x.abs = 0 := by
      rw [← sliceValue_nonZeroLength, hnz]
      simp
    rw [hr0]
    simp [toInt, this]
  intro hnz
  apply Ensures.ite
  . intro hfull
    apply Ensures.pure
    have : x.trimHighZeroDigits = x := by
      unfold trimHighZeroDigits
      rw [if_neg hnz, hfull]
    rw [← this]
    exact ⟨(htrim hnz).1, by rw [this]⟩
  intro _
  apply Ensures.ite
  . intro _
    apply Ensures.bind (Ensures.true _)
    intro _ _
    apply Ensures.pure
    exact htrim hnz
  . intro _
    apply Ensures.pure
    exact htrim hnz

theorem trim_ensures {r : BigInt p} (hneg : r.isNegative = b)
    (hmax : r.digitLength ≤ maxDigitLength p) (hzero : r.digitLength = 0 → b = false) (habs : r.abs = k)
    : Ensures (destructivelyTrimHighZeroDigits r) (Is b k) := by
  subst hneg habs
  exact destructivelyTrimHighZeroDigits_ensures hmax hzero

end SpiderMonkey.BigInt
