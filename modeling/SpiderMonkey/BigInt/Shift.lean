import SpiderMonkey.BigInt.Lemmas.Shift

/-!
This module contains the main results about the shift operators, after the specifications of `lshByAbsolute` and
`rshByAbsolute` and what the latter returns when rounding is prepared to overflow into a digit that is allocated but
not written.
-/

namespace SpiderMonkey.BigInt

variable {p : Platform}

theorem shiftLeftDigits_carry (x result : BigInt p) (shift dst n : Nat) (hn : 0 < n)
    : (shiftLeftDigits x shift result dst n).2 = x.digit (n - 1) >>> (digitBits p - shift) := by
  cases n with
  | zero => contradiction
  | succ n =>
    unfold shiftLeftDigits
    rw [Nat.fold_succ]
    rfl

theorem zeroDigits_inv (result : BigInt p) (n : Nat)
    : (n.fold (fun i _ (r : BigInt p) => r.setDigit i 0) result).digitLength = result.digitLength ∧
      (n.fold (fun i _ (r : BigInt p) => r.setDigit i 0) result).isNegative = result.isNegative ∧
      ∀ j, j < n → (n.fold (fun i _ (r : BigInt p) => r.setDigit i 0) result).digit j = 0 := by
  apply Loop.fold_inv n _ _ (fun i (r : BigInt p) =>
    r.digitLength = result.digitLength ∧ r.isNegative = result.isNegative ∧ ∀ j, j < i → r.digit j = 0)
  . simp
  intro i _ r ⟨hlen, hneg, hzero⟩
  refine ⟨hlen, hneg, ?_⟩
  intro j hj
  rw [setDigit_digit]
  split
  . rfl
  . apply hzero
    omega

theorem abs_of_low_zero {r : BigInt p} (dst n : Nat) (hlen : r.digitLength = dst + n)
    (hlow : ∀ j, j < dst → r.digit j = 0) : r.abs = base p ^ dst * r.sliceValue dst n := by
  have hzero : r.sliceValue 0 dst = 0 := by
    rw [sliceValue_eq_zero_iff]
    intro j hj
    rw [Nat.zero_add]
    exact hlow j hj
  rw [abs, hlen, sliceValue_add, hzero, Nat.zero_add, Nat.zero_add]

theorem toInt_mul_of_abs {r x : BigInt p} (hneg : r.isNegative = x.isNegative)
    (habs : r.abs = x.abs * k) : r.toInt = x.toInt * k := by
  unfold toInt
  rw [hneg, habs]
  split <;> push_cast <;> ring

theorem shifted_spec {r x : BigInt p} (dst n : Nat) (hlen : r.digitLength = dst + (n + 1))
    (hmax : r.digitLength ≤ maxDigitLength p) (hneg : r.isNegative = x.isNegative) (hlow : ∀ j, j < dst → r.digit j = 0)
    (hval : r.sliceValue dst (n + 1) = x.abs * k) (hge : base p ^ n ≤ x.abs * k)
    : Canonical r ∧ r.toInt = x.toInt * ((base p ^ dst * k : Nat) : Int) := by
  have habs : r.abs = x.abs * (base p ^ dst * k) := by
    rw [abs_of_low_zero dst (n + 1) hlen hlow, hval]
    ring
  refine ⟨canonical_of_le_abs hmax ?_ ?_, toInt_mul_of_abs hneg habs⟩
  . omega
  . rw [hlen, habs, Nat.add_succ_sub_one, Nat.pow_add, Nat.mul_left_comm]
    exact Nat.mul_le_mul_left _ hge

theorem lshByAbsolute_ensures {x y : BigInt p} (hx : Canonical x) (hy : Canonical y)
    : Ensures (lshByAbsolute x y) (fun r => Canonical r ∧ r.toInt = x.toInt * 2 ^ y.abs) := by
  unfold lshByAbsolute
  apply Ensures.ite
  . intro hzero
    apply Ensures.pure
    refine ⟨hx, ?_⟩
    rw [Bool.or_eq_true] at hzero
    cases hzero with
    | inl hzero =>
      have : x.digitLength = 0 := by simpa [isZero] using hzero
      rw [toInt_of_length_zero this, Int.zero_mul]
    | inr hzero =>
      have : y.digitLength = 0 := by simpa [isZero] using hzero
      rw [hy.abs_eq_zero_iff.mpr this]
      simp
  intro hnonzero
  apply Ensures.ite
  . intro _
    apply Ensures.throw
  intro hsmall
  simp only [isZero, Bool.or_eq_true, beq_iff_eq, not_or] at hnonzero
  simp only [gt_iff_lt, Bool.or_eq_true, decide_eq_true_eq, not_or, not_lt] at hsmall
  have hyabs : y.abs = (y.digit 0).toNat := abs_of_length_one (by omega)
  dsimp only
  rw [hyabs]
  generalize (y.digit 0).toNat = shift
  have hbits : shift % digitBits p < digitBits p := by
    apply Nat.mod_lt
    have := two_le_digitBits (p := p)
    omega
  have hpow := two_pow_shift (p := p) shift
  generalize shift / digitBits p = digitShift at *
  generalize shift % digitBits p = bitsShift at *
  apply Ensures.bind (createUninitialized_ensures _ _)
  rintro r ⟨hlen, hneg, hmax⟩
  obtain ⟨hlen', hneg', hlow'⟩ := zeroDigits_inv r digitShift
  generalize Nat.fold digitShift (fun i _ (r : BigInt p) => r.setDigit i 0) r = r' at *
  rw [← hlen] at hmax
  have hxabs := hx.base_pow_le_abs hnonzero.1
  obtain ⟨n, hn⟩ := Nat.exists_eq_succ_of_ne_zero hnonzero.1
  have hge : base p ^ n ≤ x.abs * 2 ^ bitsShift := by
    rw [hn] at hxabs
    exact hxabs.trans (Nat.le_mul_of_pos_right _ (Nat.two_pow_pos _))
  have hcast : (2 : Int) ^ shift = ((base p ^ digitShift * 2 ^ bitsShift : Nat) : Int) := by
    rw [← hpow]
    simp
  rw [hcast]
  apply Ensures.ite
  . intro hzero
    have hgrow : r.digitLength = digitShift + x.digitLength := by
      rw [hlen, hzero]
      simp
      omega
    rw [← hlen, hgrow, Nat.add_sub_cancel_left]
    apply Ensures.pure
    apply shifted_spec digitShift n
    . rw [copyDigits_digitLength, hlen', hgrow, hn]
    . rwa [copyDigits_digitLength, hlen']
    . rw [copyDigits_isNegative, hneg', hneg]
    . intro j hj
      rw [copyDigits_digit, if_neg (by omega)]
      exact hlow' j hj
    . rw [abs, hn, copyDigits_sliceValue, hzero, pow_zero, Nat.mul_one]
    . exact hge
  intro hnz
  obtain ⟨hlen'', hneg'', hlow'', hcarry, hval⟩ :=
    shiftLeftDigits_inv x r' hbits.le digitShift x.digitLength
  have hlast := shiftLeftDigits_carry x r' bitsShift digitShift x.digitLength (by omega)
  generalize shiftLeftDigits x bitsShift r' digitShift x.digitLength = res at *
  obtain ⟨result, carry⟩ := res
  dsimp only at hlen'' hneg'' hlow'' hcarry hval hlast ⊢
  have hlow : ∀ j, j < digitShift → result.digit j = 0 := by
    intro j hj
    rw [hlow'' j hj, hlow' j hj]
  change _ = x.abs * 2 ^ bitsShift at hval
  apply Ensures.ite
  . intro hgrow
    rw [hgrow, Bool.toNat_true] at hlen
    have hcarry_pos : 0 < carry.toNat := by
      rw [Bool.and_eq_true, ← hlast, bne_iff_ne, bne_iff_ne, ne_eq, ne_eq, BitVec.toNat_eq, toNat_zero] at hgrow
      omega
    apply Ensures.pure
    apply shifted_spec digitShift x.digitLength
    . rw [setDigit_digitLength, hlen'', hlen', hlen]
      omega
    . rwa [setDigit_digitLength, hlen'', hlen']
    . rw [setDigit_isNegative, hneg'', hneg', hneg]
    . intro j hj
      rw [setDigit_digit_of_ne _ _ (by omega)]
      exact hlow j hj
    . rw [sliceValue_setDigit_last, hval]
    . rw [← hval]
      have := Nat.le_mul_of_pos_left (base p ^ x.digitLength) hcarry_pos
      omega
  . intro hgrow
    rw [Bool.not_eq_true] at hgrow
    rw [hgrow, Bool.toNat_false] at hlen
    have hcarry_zero : carry.toNat = 0 := by
      rw [Bool.and_eq_false_iff, ← hlast] at hgrow
      simpa [hnz, BitVec.toNat_eq] using hgrow
    rw [hcarry_zero, Nat.zero_mul, Nat.add_zero, hn] at hval
    apply Ensures.pure
    apply shifted_spec digitShift n
    . rw [hlen'', hlen', hlen, hn]
      omega
    . rwa [hlen'', hlen']
    . rw [hneg'', hneg', hneg]
    . exact hlow
    . exact hval
    . exact hge

theorem neg_div_of_mod_eq_zero {m k : Nat} (hk : 0 < k) (h : m % k = 0)
    : -(m : Int) / (k : Int) = -((m / k : Nat) : Int) := by
  obtain ⟨q, rfl⟩ := Nat.dvd_of_mod_eq_zero h
  rw [Nat.mul_div_cancel_left _ hk]
  push_cast
  rw [← Int.mul_neg, Int.mul_ediv_cancel_left _ (by omega)]

theorem neg_div_of_mod_ne_zero {m k : Nat} (hk : 0 < k) (h : m % k ≠ 0)
    : -(m : Int) / (k : Int) = -((m / k : Nat) + 1 : Int) := by
  have hlt := Nat.mod_lt m hk
  have hm : -(m : Int) = ((k : Int) - (m % k : Nat)) + (-((m / k : Nat) + 1 : Int)) * k := by
    have := Nat.div_add_mod' m k
    have hcast : ((m / k : Nat) : Int) * k + (m % k : Nat) = m := by exact_mod_cast this
    rw [← hcast]
    ring
  rw [hm, Int.add_mul_ediv_right _ _ (by omega), Int.ediv_eq_zero_of_lt (by omega) (by omega), Int.zero_add]

/--
The inputs for which `rshByAbsolute` allocates a digit for the overflow of the rounding: whole
digits are shifted out of a negative number, one of them is not zero and the most significant digit
has no unset bit.
-/
structure RoundingCanOverflow (x y : BigInt p) : Prop where
  isNegative : x.isNegative = true
  length_eq : y.digitLength = 1
  lt_maxBitLength : (y.digit 0).toNat < maxBitLength
  bitsShift_eq : (y.digit 0).toNat % digitBits p = 0
  digitShift_lt : (y.digit 0).toNat / digitBits p < x.digitLength
  shifted_out : ∃ i, i < (y.digit 0).toNat / digitBits p ∧ x.digit i ≠ 0
  msd_eq : x.digit (x.digitLength - 1) = digitMax p

theorem rshByMaximum_ensures (hx : Canonical x) (hx0 : x.digitLength ≠ 0) (hk : x.abs < k)
    : Ensures (rshByMaximum x.isNegative : JSM p (BigInt p))
        (fun r => Canonical r ∧ r.toInt = x.toInt / (k : Int)) := by
  have hpos : x.abs ≠ 0 := by
    rw [ne_eq, hx.abs_eq_zero_iff]
    exact hx0
  unfold rshByMaximum
  apply Ensures.ite
  . intro hneg
    apply Ensures.mono (createFromDigit_ensures _ true)
    . intro r ⟨hr, habs, hrneg⟩
      refine ⟨hr, ?_⟩
      unfold toInt
      rw [hrneg, habs, hneg, toNat_one, if_pos rfl, if_pos rfl, neg_div_of_mod_ne_zero (by omega), Nat.div_eq_of_lt hk]
      . rfl
      . rw [Nat.mod_eq_of_lt hk]
        exact hpos
    . rw [ne_eq, BitVec.toNat_eq, toNat_one, toNat_zero]
      omega
  . intro hneg
    apply Ensures.mono zero_ensures_toInt
    intro r ⟨hr, hint⟩
    refine ⟨hr, ?_⟩
    unfold toInt at hint ⊢
    rw [hint, if_neg hneg, Int.ediv_eq_zero_of_lt (by omega) (by omega)]

theorem mustRoundDown_eq_false_or {x : BigInt p} {shift : Nat}
    (h : shift / digitBits p < x.digitLength)
    : (mustRoundDown x (shift / digitBits p) (shift % digitBits p) = true
        ∧ x.toInt / ((2 ^ shift : Nat) : Int) = -((x.abs / 2 ^ shift : Nat) + 1 : Int) ∧ x.isNegative = true)
      ∨ (mustRoundDown x (shift / digitBits p) (shift % digitBits p) = false ∧ x.toInt / ((2 ^ shift : Nat) : Int)
            = if x.isNegative then -((x.abs / 2 ^ shift : Nat) : Int) else (x.abs / 2 ^ shift : Nat)) := by
  have hiff := mustRoundDown_iff x h
  have hpow : 0 < 2 ^ shift := Nat.two_pow_pos shift
  cases hround : mustRoundDown x (shift / digitBits p) (shift % digitBits p) with
  | true =>
    have ⟨hneg, hmod⟩ := hiff.mp hround
    left
    refine ⟨rfl, ?_, hneg⟩
    unfold toInt
    rw [hneg, if_pos rfl, neg_div_of_mod_ne_zero hpow hmod]
  | false =>
    right
    refine ⟨rfl, ?_⟩
    unfold toInt
    split
    . next hneg =>
      apply neg_div_of_mod_eq_zero hpow
      by_contra hmod
      rw [hiff.mpr ⟨hneg, hmod⟩] at hround
      contradiction
    . rw [Int.natCast_div]

theorem rshDigits_inv {shift : Nat} (h : shift / digitBits p < x.digitLength) (result : BigInt p)
    : let shifted := rshDigits x (shift / digitBits p) (shift % digitBits p) result
      shifted.digitLength = result.digitLength ∧ shifted.isNegative = result.isNegative ∧
        shifted.sliceValue 0 (x.digitLength - shift / digitBits p) = x.abs / 2 ^ shift := by
  have hbits : shift % digitBits p < digitBits p := by
    apply Nat.mod_lt
    have := two_le_digitBits (p := p)
    omega
  rw [two_pow_shift (p := p), ← Nat.div_div_eq_div_mul, abs_div_base_pow x h.le]
  unfold rshDigits
  split
  . next hzero =>
    dsimp only
    rw [hzero, pow_zero, Nat.div_one, copyDigits_sliceValue]
    simp
  have ⟨hlen, hneg, _, hval⟩ := shiftRightDigits_inv x result (shift / digitBits p) hbits.le
    (x.digitLength - shift / digitBits p - 1)
  dsimp only
  generalize shiftRightDigits x (shift / digitBits p) (shift % digitBits p) result
    (x.digitLength - shift / digitBits p - 1) = res at *
  have hset := sliceValue_setDigit_last res.1 0 (x.digitLength - shift / digitBits p - 1) res.2
  rw [Nat.zero_add, hval, Nat.sub_add_cancel (by omega)] at hset
  exact ⟨hlen, hneg, hset⟩

theorem roundingCanOverflow_iff (hlen : y.digitLength = 1) (hlt : (y.digit 0).toNat < maxBitLength)
    (hdigits : (y.digit 0).toNat / digitBits p < x.digitLength)
    : (mustRoundDown x ((y.digit 0).toNat / digitBits p) ((y.digit 0).toNat % digitBits p)
        && (y.digit 0).toNat % digitBits p == 0 && x.digit (x.digitLength - 1) == digitMax p) = true
        ↔
      RoundingCanOverflow x y := by
  have hmask : (y.digit 0).toNat % digitBits p = 0 → (x.digit ((y.digit 0).toNat / digitBits p)
          &&& ((1 : Digit p) <<< ((y.digit 0).toNat % digitBits p) - 1)) = 0 := by
    intro hbits
    have := two_le_digitBits (p := p)
    apply BitVec.eq_of_toNat_eq
    rw [hbits, toNat_and_mask (by omega), pow_zero, Nat.mod_one, toNat_zero]
  unfold mustRoundDown
  simp only [Bool.and_eq_true, Bool.or_eq_true, bne_iff_ne, beq_iff_eq, List.any_eq_true, List.mem_range]
  constructor
  . intro ⟨⟨⟨hneg, hround⟩, hbits⟩, hmsd⟩
    refine ⟨hneg, hlen, hlt, hbits, hdigits, ?_, hmsd⟩
    cases hround with
    | inl hround =>
      rw [hmask hbits] at hround
      contradiction
    | inr hround =>
      exact hround
  . intro h
    exact ⟨⟨⟨h.isNegative, Or.inr h.shifted_out⟩, h.bitsShift_eq⟩, h.msd_eq⟩

theorem rshByAbsolute_ensures {x y : BigInt p} (hx : Canonical x) (hy : Canonical y) (hsafe : ¬RoundingCanOverflow x y)
    : Ensures (rshByAbsolute x y) (fun r => Canonical r ∧ r.toInt = x.toInt / ((2 ^ y.abs : Nat) : Int)) := by
  unfold rshByAbsolute
  apply Ensures.ite
  . intro hzero
    apply Ensures.pure
    refine ⟨hx, ?_⟩
    rw [Bool.or_eq_true] at hzero
    cases hzero with
    | inl hzero =>
      have : x.digitLength = 0 := by simpa [isZero] using hzero
      rw [toInt_of_length_zero this, Int.zero_ediv]
    | inr hzero =>
      have : y.digitLength = 0 := by simpa [isZero] using hzero
      rw [hy.abs_eq_zero_iff.mpr this]
      simp
  intro hnonzero
  simp only [isZero, Bool.or_eq_true, beq_iff_eq, not_or] at hnonzero
  apply Ensures.ite
  . intro hlarge
    apply rshByMaximum_ensures hx hnonzero.1
    apply Nat.lt_of_lt_of_le (abs_lt_two_pow hx)
    apply Nat.pow_le_pow_right (by omega)
    simp only [gt_iff_lt, ge_iff_le, Bool.or_eq_true, decide_eq_true_eq] at hlarge
    by_cases hlen : 1 < y.digitLength
    . apply Nat.le_trans maxBitLength_lt_base.le (base_le_abs hy hlen)
    . rw [abs_of_length_one (by omega)]
      omega
  intro hsmall
  simp only [gt_iff_lt, ge_iff_le, Bool.or_eq_true, decide_eq_true_eq, not_or, not_lt, not_le] at hsmall
  have hylen : y.digitLength = 1 := by omega
  rw [abs_of_length_one hylen]
  dsimp only
  apply Ensures.ite
  . intro hover
    apply rshByMaximum_ensures hx hnonzero.1
    apply Nat.lt_of_lt_of_le (abs_lt x)
    rw [two_pow_shift (p := p)]
    calc base p ^ x.digitLength
        ≤ base p ^ ((y.digit 0).toNat / digitBits p) := Nat.pow_le_pow_right base_pos hover
      _ ≤ base p ^ ((y.digit 0).toNat / digitBits p) * 2 ^ ((y.digit 0).toNat % digitBits p) :=
        Nat.le_mul_of_pos_right _ (by positivity)
  intro hinside
  have hdigits : (y.digit 0).toNat / digitBits p < x.digitLength := by omega
  have hflag := roundingCanOverflow_iff hylen hsmall.2 hdigits
  have hcases := mustRoundDown_eq_false_or hdigits
  rw [← hflag, Bool.not_eq_true] at hsafe
  rw [hsafe, Bool.toNat_false, Nat.add_zero]
  apply Ensures.bind (createUninitialized_ensures _ _)
  rintro r ⟨hlen, hneg, hmax⟩
  obtain ⟨hlen', hneg', hval⟩ := rshDigits_inv hdigits r
  generalize rshDigits x ((y.digit 0).toNat / digitBits p) ((y.digit 0).toNat % digitBits p) r = shifted at *
  have habs : shifted.abs = x.abs / 2 ^ (y.digit 0).toNat := by
    rw [abs, hlen', hlen, hval]
  cases hcases with
  | inl h =>
    obtain ⟨hround, hint, hxneg⟩ := h
    rw [if_pos hround, hint, hxneg, ← habs]
    exact absoluteAddOne_ensures shifted true
  | inr h =>
    obtain ⟨hround, hint⟩ := h
    rw [if_neg (by rw [hround]; exact Bool.false_ne_true), hint, ← habs]
    apply Ensures.mono (destructivelyTrimHighZeroDigits_ensures _ _)
    . rintro r' ⟨hr', hint'⟩
      refine ⟨hr', ?_⟩
      rw [hint', toInt, hneg', hneg]
    . omega
    . omega

theorem createUninitialized_run (hn : n ≤ maxDigitLength p) (b : Bool) (digits : Nat → Digit p) (heap : Heap p)
    : createUninitialized n b (digits :: heap) = .ok (⟨n, b, digits⟩, heap) := by
  unfold createUninitialized
  rw [if_neg (by omega)]
  rfl

theorem destructivelyTrimHighZeroDigits_run (x : BigInt p) (digits : Nat → Digit p) (heap : Heap p)
    : ∃ (r : BigInt p) (heap' : Heap p), destructivelyTrimHighZeroDigits x (digits :: heap) = .ok (r, heap') := by
  unfold destructivelyTrimHighZeroDigits
  split
  . exact ⟨_, _, rfl⟩
  dsimp only
  split
  . exact ⟨_, _, createUninitialized_run (Nat.zero_le _) _ _ _⟩
  split
  . exact ⟨_, _, rfl⟩
  split
  . exact ⟨_, _, rfl⟩
  . exact ⟨_, _, rfl⟩

theorem absoluteAddOne_run {i : Nat} (hi : i < x.digitLength)
    (hdigit : x.digit i ≠ digitMax p) (hlen : x.digitLength ≤ maxDigitLength p) (b : Bool)
    (d1 d2 : Nat → Digit p) (heap : Heap p)
    : ∃ (r : BigInt p) (heap' : Heap p), absoluteAddOne x b (d1 :: d2 :: heap) = .ok (r, heap') := by
  have hall : (List.range x.digitLength).all (fun i => x.digit i == digitMax p) = false := by
    rw [List.all_eq_false]
    exact ⟨i, by simpa using hi, by simpa using hdigit⟩
  unfold absoluteAddOne
  simp only [hall, Bool.toNat_false, Nat.add_zero, gt_iff_lt, Nat.lt_irrefl, if_false, Bind.bind,
    StateT.bind, createUninitialized_run hlen, Except.bind]
  apply destructivelyTrimHighZeroDigits_run

theorem rshByAbsolute_eq {x y : BigInt p} (h : RoundingCanOverflow x y)
    : rshByAbsolute x y = (do
        let n := x.digitLength - (y.digit 0).toNat / digitBits p
        let result ← createUninitialized (n + 1) true
        absoluteAddOne (copyDigits x ((y.digit 0).toNat / digitBits p) result 0 n) true) := by
  have hdigits := h.digitShift_lt
  have hlen := h.length_eq
  have hmax := h.lt_maxBitLength
  have hflag := (roundingCanOverflow_iff hlen hmax hdigits).mpr h
  have hround : mustRoundDown x ((y.digit 0).toNat / digitBits p) ((y.digit 0).toNat % digitBits p) = true := by
    rw [Bool.and_eq_true, Bool.and_eq_true] at hflag
    exact hflag.1.1
  have hpos : x.digitLength ≠ 0 := Nat.ne_zero_of_lt hdigits
  unfold rshByAbsolute
  rw [if_neg, if_neg]
  . dsimp only
    rw [if_neg (by omega), hflag, Bool.toNat_true, h.isNegative]
    rw [h.bitsShift_eq] at hround
    simp only [h.bitsShift_eq, hround, if_true, rshDigits]
  . simp [hlen, hmax]
  . simp [isZero, hlen, hpos]

/--
With a set bit in the digit that is not written, the result is off by the value of that bit.
-/
theorem rshByAbsolute_run_wrong (hx : Canonical x) (h : RoundingCanOverflow x y)
    : ∃ (heap : Heap p) (r : BigInt p) (heap' : Heap p), rshByAbsolute x y heap = .ok (r, heap') ∧
        r.toInt ≠ x.toInt / ((2 ^ y.abs : Nat) : Int) := by
  have hdigits := h.digitShift_lt
  have hmax := hx.length_le
  have hpos : 0 < (y.digit 0).toNat / digitBits p := by
    obtain ⟨i, hi, _⟩ := h.shifted_out
    omega
  have hround : mustRoundDown x ((y.digit 0).toNat / digitBits p) ((y.digit 0).toNat % digitBits p) = true := by
    have hflag := (roundingCanOverflow_iff h.length_eq h.lt_maxBitLength hdigits).mpr h
    rw [Bool.and_eq_true, Bool.and_eq_true] at hflag
    exact hflag.1.1
  refine ⟨[fun _ => 1, fun _ => 0, fun _ => 0], ?_⟩
  generalize hn : x.digitLength - (y.digit 0).toNat / digitBits p = n
  have hn1 : n + 1 ≤ x.digitLength := by
    rw [← hn]
    exact Nat.sub_lt (Nat.zero_lt_of_lt hdigits) hpos
  have hinv := rshDigits_inv hdigits (⟨n + 1, true, fun _ => 1⟩ : BigInt p)
  have hdigit : (copyDigits x ((y.digit 0).toNat / digitBits p) ⟨n + 1, true, fun _ => 1⟩ 0 n).digit n = 1 := by
    rw [copyDigits_digit, if_neg (by omega)]
  unfold rshDigits at hinv
  rw [if_pos h.bitsShift_eq] at hinv
  dsimp only at hinv
  rw [hn] at hinv
  obtain ⟨hlen', _, hval⟩ := hinv
  generalize hshifted : copyDigits x ((y.digit 0).toNat / digitBits p) ⟨n + 1, true, fun _ => 1⟩ 0 n = shifted at *
  have habs : shifted.abs = x.abs / 2 ^ (y.digit 0).toNat + base p ^ n := by
    rw [abs, hlen', sliceValue_succ, Nat.zero_add, hdigit, hval, toNat_one, Nat.one_mul]
  have hne : (1 : Digit p) ≠ digitMax p := by
    have := Nat.mul_le_mul (two_le_halfBase (p := p)) (two_le_halfBase (p := p))
    rw [← base_eq_half] at this
    rw [ne_eq, BitVec.toNat_eq, toNat_one, digitMax, BitVec.toNat_allOnes]
    unfold base at this
    omega
  obtain ⟨r, heap', hrun⟩ := absoluteAddOne_run (x := shifted) (i := n) (by omega)
    (by rw [hdigit]; exact hne) (by omega) true (fun _ => 0) (fun _ => 0) []
  refine ⟨r, heap', ?_, ?_⟩
  . rw [rshByAbsolute_eq h]
    dsimp only
    rw [hn]
    simp only [Bind.bind, StateT.bind, createUninitialized_run (show n + 1 ≤ maxDigitLength p by omega),
      Except.bind, hshifted]
    exact hrun
  have hint := ((absoluteAddOne_ensures shifted true).of_run _ _ _ hrun).2
  have hfloor := (mustRoundDown_eq_false_or hdigits).resolve_right
    (by rw [hround]; simp)
  have hpow : 0 < base p ^ n := Nat.pow_pos base_pos
  rw [hint, abs_of_length_one h.length_eq, hfloor.2.1, habs, signed, if_pos rfl]
  generalize x.abs / 2 ^ (y.digit 0).toNat = q
  generalize base p ^ n = carry at hpow
  omega

theorem zpow_toInt (y : BigInt p)
    : (2 : ℚ) ^ y.toInt = if y.isNegative then ((2 ^ y.abs : Nat) : ℚ)⁻¹ else (2 ^ y.abs : Nat) := by
  unfold toInt
  split
  . rw [zpow_neg, zpow_natCast]
    push_cast
    rfl
  rw [zpow_natCast]
  push_cast
  rfl

theorem floor_mul_two_pow (a : Int) (k : Nat)
    : ⌊(a : ℚ) * ((2 ^ k : Nat) : ℚ)⌋ = a * 2 ^ k := by
  have : (a : ℚ) * ((2 ^ k : Nat) : ℚ) = ((a * 2 ^ k : Int) : ℚ) := by
    push_cast
    rfl
  rw [this, Int.floor_intCast]

theorem floor_mul_inv_two_pow (a : Int) (k : Nat)
    : ⌊(a : ℚ) * ((2 ^ k : Nat) : ℚ)⁻¹⌋ = a / ((2 ^ k : Nat) : Int) := by
  rw [← div_eq_mul_inv]
  apply Rat.floor_intCast_div_natCast

theorem rshByAbsolute_iff (hx : Canonical x) (hy : Canonical y)
    : Ensures (rshByAbsolute x y) (fun r => Canonical r ∧ r.toInt = ⌊(x.toInt : ℚ) * ((2 ^ y.abs : Nat) : ℚ)⁻¹⌋) ↔
      ¬RoundingCanOverflow x y := by
  rw [floor_mul_inv_two_pow]
  constructor
  . intro hensures h
    obtain ⟨heap, r, heap', hrun, hne⟩ := rshByAbsolute_run_wrong hx h
    exact hne (hensures.of_run _ _ _ hrun).2
  . exact rshByAbsolute_ensures hx hy

/--
Both shifts are exact floor shifts, unless they shift to the right by whole digits and prepare for
a rounding overflow.
-/
theorem lsh_rsh_floor_iff (x y : BigInt p) (hx : Canonical x) (hy : Canonical y)
    : (Ensures (lsh x y) (fun r => Canonical r ∧ r.toInt = ⌊(x.toInt : ℚ) * 2 ^ y.toInt⌋)
        ↔ ¬(y.isNegative = true ∧ RoundingCanOverflow x y))
      ∧
      (Ensures (rsh x y) (fun r => Canonical r ∧ r.toInt = ⌊(x.toInt : ℚ) / 2 ^ y.toInt⌋)
        ↔ ¬(y.isNegative = false ∧ RoundingCanOverflow x y)) := by
  have hleft : Ensures (lshByAbsolute x y)
      (fun r => Canonical r ∧ r.toInt = ⌊(x.toInt : ℚ) * ((2 ^ y.abs : Nat) : ℚ)⌋) := by
    rw [floor_mul_two_pow]
    exact lshByAbsolute_ensures hx hy
  have hright := rshByAbsolute_iff hx hy
  unfold lsh rsh
  rw [zpow_toInt]
  cases hneg : y.isNegative with
  | true =>
    simp only [if_true, div_inv_eq_mul, true_and, Bool.true_eq_false, false_and, not_false_iff, iff_true]
    exact ⟨hright, hleft⟩
  | false =>
    simp only [Bool.false_eq_true, if_false, div_eq_mul_inv, true_and, false_and, not_false_iff, iff_true]
    exact ⟨hleft, hright⟩

def x64 : Platform := ⟨true, true, true⟩

def allOnesAboveOne : BigInt x64 :=
  ⟨2, true, fun i => if i = 0 then 1 else digitMax x64⟩

def sixtyFour : BigInt x64 := ⟨1, false, fun _ => 64⟩

theorem sixtyFour_canonical : Canonical sixtyFour := ⟨by decide, by decide, by decide⟩

def twoDigits : BigInt x64 := ⟨2, false, fun i => if i = 0 then 5 else 3⟩

def threeNegativeDigits : BigInt x64 := ⟨3, true, fun i => if i = 2 then 1 else digitMax x64⟩

theorem twoDigits_canonical : Canonical twoDigits := ⟨by decide, by decide, by decide⟩

theorem threeNegativeDigits_canonical : Canonical threeNegativeDigits := ⟨by decide, by decide, by decide⟩

theorem toInt_twoDigits : twoDigits.toInt = 3 * 2 ^ 64 + 5 := by decide +kernel

theorem toInt_threeNegativeDigits : threeNegativeDigits.toInt = -(2 ^ 129 - 1) := by decide +kernel

theorem lsh_rsh_floor_iff_sixtyFour
    : Canonical sixtyFour ∧ Ensures (lsh sixtyFour sixtyFour)
        (fun r => Canonical r ∧ r.toInt = ⌊(sixtyFour.toInt : ℚ) * 2 ^ sixtyFour.toInt⌋) := by
  refine ⟨sixtyFour_canonical, ?_⟩
  apply (lsh_rsh_floor_iff sixtyFour sixtyFour sixtyFour_canonical sixtyFour_canonical).1.mpr
  intro hneg
  exact absurd hneg.1 (by decide)

/--
Shifting the low digit out of this number leaves a carry into a digit that holds what the allocator
left there.
-/
theorem rsh_allOnesAboveOne_not_floor
    : Canonical allOnesAboveOne ∧ Canonical sixtyFour ∧ ¬Ensures (rsh allOnesAboveOne sixtyFour) (fun r => Canonical r ∧
          r.toInt = ⌊(allOnesAboveOne.toInt : ℚ) / 2 ^ sixtyFour.toInt⌋) := by
  have hx : Canonical allOnesAboveOne := ⟨by decide, by decide, by decide⟩
  refine ⟨hx, sixtyFour_canonical, ?_⟩
  have hneg : sixtyFour.isNegative = false := rfl
  have h : RoundingCanOverflow allOnesAboveOne sixtyFour := by
    refine ⟨rfl, rfl, by decide, by decide, by decide, ⟨0, by decide, by decide⟩, by decide⟩
  unfold rsh
  rw [zpow_toInt, hneg]
  simp only [Bool.false_eq_true, if_false, div_eq_mul_inv]
  rw [rshByAbsolute_iff hx sixtyFour_canonical]
  intro hsafe
  exact hsafe h

end SpiderMonkey.BigInt
