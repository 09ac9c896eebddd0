import SpiderMonkey.BigInt.Lemmas.Knuth

/-!
This module contains the specifications of the two long divisions, after those of `absoluteCompare` and of the
division by a single digit.
-/

namespace SpiderMonkey.BigInt

variable {p : Platform}

theorem compareDigits_neg_iff (x y : BigInt p) (n : Nat)
    : compareDigits x y n < 0 ↔ x.sliceValue 0 n < y.sliceValue 0 n := by
  induction n with
  | zero => simp [compareDigits]
  | succ n ih =>
    have hx := sliceValue_lt x 0 n
    have hy := sliceValue_lt y 0 n
    rw [sliceValue_succ, sliceValue_succ, Nat.zero_add]
    unfold compareDigits
    split
    . next heq =>
      rw [ih, heq]
      omega
    split
    . next hgt =>
      rw [gt_iff_lt, BitVec.lt_def] at hgt
      have := Nat.mul_le_mul_right (base p ^ n) (Nat.succ_le_of_lt hgt)
      rw [Nat.succ_mul] at this
      omega
    next hne hle =>
    rw [BitVec.toNat_eq] at hne
    rw [gt_iff_lt, BitVec.lt_def] at hle
    have hlt : (x.digit n).toNat < (y.digit n).toNat := by omega
    have := Nat.mul_le_mul_right (base p ^ n) (Nat.succ_le_of_lt hlt)
    rw [Nat.succ_mul] at this
    omega

theorem abs_lt_of_length_lt {x y : BigInt p} (hy : Canonical y) (h : x.digitLength < y.digitLength)
    : x.abs < y.abs := by
  calc x.abs
      < base p ^ x.digitLength := abs_lt x
    _ ≤ base p ^ (y.digitLength - 1) := Nat.pow_le_pow_right base_pos (by omega)
    _ ≤ y.abs := hy.base_pow_le_abs (by omega)

theorem absoluteCompare_neg_iff {x y : BigInt p} (hx : Canonical x) (hy : Canonical y)
    : absoluteCompare x y < 0 ↔ x.abs < y.abs := by
  unfold absoluteCompare
  dsimp only
  split
  . next hdiff =>
    split
    . next hlt =>
      have := abs_lt_of_length_lt hy (x := x) (by omega)
      omega
    next hge =>
    have := abs_lt_of_length_lt hx (x := y) (by omega)
    omega
  . next hdiff =>
    have hlen : x.digitLength = y.digitLength := by omega
    rw [compareDigits_neg_iff, abs, abs, hlen]

/--
One round of the division by a single digit.
-/
theorem digitDiv_step {x : BigInt p} {i k Q : Nat} (hlt : remainder.toNat < divisor.toNat)
    (h : x.sliceValue (i + 1) k = Q * divisor.toNat + remainder.toNat)
    : let res := digitDiv remainder (x.digit i) divisor
      res.2.toNat < divisor.toNat ∧
      x.sliceValue i (k + 1) = (res.1.toNat + base p * Q) * divisor.toNat + res.2.toNat := by
  have ⟨hq, hr⟩ := digitDiv_toNat remainder (x.digit i) divisor hlt
  have hdivmod := Nat.div_add_mod' (remainder.toNat * base p + (x.digit i).toNat) divisor.toNat
  intro res
  constructor
  . rw [hr]
    exact Nat.mod_lt _ (by omega)
  rw [sliceValue_succ_low, h]
  rw [← hq, ← hr] at hdivmod
  calc (x.digit i).toNat + base p * (Q * divisor.toNat + remainder.toNat)
      = base p * Q * divisor.toNat + (remainder.toNat * base p + (x.digit i).toNat) := by ring
    _ = (res.1.toNat + base p * Q) * divisor.toNat + res.2.toNat := by
      rw [← hdivmod]
      ring

theorem absoluteDivWithDigitDivisor_quotient {x : BigInt p}
    (h0 : divisor ≠ 0) (h1 : divisor ≠ 1) (b : Bool)
    : Ensures (absoluteDivWithDigitDivisor x divisor (some none) b)
        (fun r => ∃ q, r.1 = some q ∧ q.abs = x.abs / divisor.toNat ∧ q.isNegative = b ∧
          q.digitLength = x.digitLength ∧ q.digitLength ≤ maxDigitLength p) := by
  have hpos : 0 < divisor.toNat := by
    rw [ne_eq, BitVec.toNat_eq, toNat_zero] at h0
    omega
  unfold absoluteDivWithDigitDivisor
  rw [if_neg h1]
  dsimp only
  apply Ensures.bind (createUninitialized_ensures _ _)
  intro r ⟨hlen, hneg, hmax⟩
  apply Ensures.pure
  have hinv := Loop.foldRev_inv x.digitLength (fun i _ (a : BigInt p × Digit p) =>
      (a.1.setDigit i (digitDiv a.2 (x.digit i) divisor).1, (digitDiv a.2 (x.digit i) divisor).2)) (r, 0)
    (fun i (a : BigInt p × Digit p) =>
      a.1.digitLength = r.digitLength ∧ a.1.isNegative = r.isNegative ∧ a.2.toNat < divisor.toNat ∧
        x.sliceValue i (x.digitLength - i) = a.1.sliceValue i (x.digitLength - i) * divisor.toNat + a.2.toNat)
  have ⟨hqlen, hqneg, hrlt, hval⟩ := hinv (by
      dsimp only
      rw [toNat_zero, Nat.sub_self]
      simp [hpos])
    (by
      intro i hi ⟨q, remainder⟩ ⟨hqlen, hqneg, hrlt, hval⟩
      dsimp only at hqlen hqneg hrlt hval ⊢
      have ⟨hlt', hval'⟩ := digitDiv_step hrlt hval
      refine ⟨hqlen, hqneg, hlt', ?_⟩
      rw [show x.digitLength - i = x.digitLength - (i + 1) + 1 by omega,
        sliceValue_succ_low (q.setDigit _ _), setDigit_digit_self,
        sliceValue_setDigit_of_not_mem _ _ (by omega)]
      exact hval')
  refine ⟨_, rfl, ?_, ?_, ?_, ?_⟩
  . rw [abs, abs, hqlen, hlen]
    rw [Nat.sub_zero] at hval
    rw [hval, Nat.mul_comm, Nat.mul_add_div hpos, Nat.div_eq_of_lt hrlt, Nat.add_zero]
  . rw [hqneg, hneg]
  . rw [hqlen, hlen]
  . rw [hqlen, hlen]
    exact hmax

theorem absoluteDivWithDigitDivisor_remainder {x : BigInt p}
    (h0 : divisor ≠ 0) (h1 : divisor ≠ 1) (b : Bool)
    : Ensures (absoluteDivWithDigitDivisor x divisor none b) (fun r => r.2.toNat = x.abs % divisor.toNat) := by
  have hpos : 0 < divisor.toNat := by
    rw [ne_eq, BitVec.toNat_eq, toNat_zero] at h0
    omega
  unfold absoluteDivWithDigitDivisor
  rw [if_neg h1]
  dsimp only
  apply Ensures.pure
  have ⟨hrlt, Q, hval⟩ := Loop.foldRev_inv x.digitLength
    (fun i _ remainder => (digitDiv remainder (x.digit i) divisor).2) 0
    (fun i (remainder : Digit p) => remainder.toNat < divisor.toNat ∧
      ∃ Q, x.sliceValue i (x.digitLength - i) = Q * divisor.toNat + remainder.toNat)
    (by
      rw [toNat_zero, Nat.sub_self]
      exact ⟨hpos, 0, by simp⟩)
    (by
      intro i hi remainder ⟨hrlt, Q, hval⟩
      have ⟨hlt', hval'⟩ := digitDiv_step hrlt hval
      refine ⟨hlt', (digitDiv remainder (x.digit i) divisor).1.toNat + base p * Q, ?_⟩
      rw [show x.digitLength - i = x.digitLength - (i + 1) + 1 by omega]
      exact hval')
  rw [Nat.sub_zero] at hval
  rw [abs, hval, Nat.mul_comm, Nat.mul_add_mod, Nat.mod_eq_of_lt hrlt]

section

variable {v u : BigInt p} {n m : Nat}

/--
What the loop of the long division knows when all quotient digits from index `j` on are computed:
they are the quotient `Q` of the upper part of the dividend `u0`, whose remainder is left in `u`.
-/
structure DivisionInv (v u0 : BigInt p) (n m : Nat) (j : Nat)
    (q : Option (BigInt p)) (qhatv u : BigInt p) : Prop where
  length_u : u.digitLength = u0.digitLength
  neg_u : u.isNegative = u0.isNegative
  length_qhatv : qhatv.digitLength = n + 1
  low_digits : ∀ i, i < j → u.digit i = u0.digit i
  high_digits : ∀ i, j + n ≤ i → i < m + n + 1 → u.digit i = 0
  rest_lt : u.sliceValue j n < v.sliceValue 0 n
  exact : ∃ Q, (∀ q', q = some q' → q'.sliceValue j (m + 1 - j) = Q) ∧
    u0.sliceValue j (m + n + 1 - j) = Q * v.sliceValue 0 n + u.sliceValue j n

theorem divisionInv_step (hv : Normalized v n) (hj : j < m + 1) (h : DivisionInv v u0 n m (j + 1) q qhatv u)
    : let res := subtractQuotientDigit v qhatv u n j (estimateQuotientDigit v u n j)
      DivisionInv v u0 n m j (q.map (fun q => q.setDigit j res.2.2)) res.2.1 res.1 := by
  have hU := sliceValue_succ_low u j n
  have hulow := toNat_lt_base (u.digit j)
  have hU_lt : u.sliceValue j (n + 1) < v.sliceValue 0 n * base p := by
    calc u.sliceValue j (n + 1)
        < base p + base p * u.sliceValue (j + 1) n := by omega
      _ = (u.sliceValue (j + 1) n + 1) * base p := by ring
      _ ≤ v.sliceValue 0 n * base p := Nat.mul_le_mul_right _ h.rest_lt
  have ⟨hlow, hhigh⟩ := estimateQuotientDigit_bounds hv hU_lt
  have ⟨hlen, hneg, hframe, hqlen, htop, hrest, hdigit⟩ :=
    subtractQuotientDigit_inv hv h.length_qhatv hlow hhigh
  intro res
  obtain ⟨Q, hQ, hexact⟩ := h.exact
  have hdivmod := Nat.div_add_mod' (u.sliceValue j (n + 1)) (v.sliceValue 0 n)
  constructor
  . rw [hlen, h.length_u]
  . rw [hneg, h.neg_u]
  . exact hqlen
  . intro i hi
    rw [hframe i (by omega), h.low_digits i (by omega)]
  . intro i hi hlt
    by_cases hi' : i = j + n
    . rw [hi']
      exact htop
    . rw [hframe i (by omega)]
      apply h.high_digits <;> omega
  . rw [hrest]
    exact Nat.mod_lt _ hv.pos
  refine ⟨res.2.2.toNat + base p * Q, ?_, ?_⟩
  . intro q' hq'
    obtain ⟨q'', hq'', rfl⟩ := Option.map_eq_some_iff.mp hq'
    rw [show m + 1 - j = m + 1 - (j + 1) + 1 by omega, sliceValue_succ_low, setDigit_digit_self,
      sliceValue_setDigit_of_not_mem _ _ (by omega), hQ q'' hq'']
  rw [show m + n + 1 - j = m + n + 1 - (j + 1) + 1 by omega, sliceValue_succ_low, hexact,
    ← h.low_digits j (by omega), hrest, hdigit]
  calc (u.digit j).toNat + base p * (Q * v.sliceValue 0 n + u.sliceValue (j + 1) n)
      = base p * Q * v.sliceValue 0 n + u.sliceValue j (n + 1) := by
        rw [hU]
        ring
    _ = (u.sliceValue j (n + 1) / v.sliceValue 0 n + base p * Q) * v.sliceValue 0 n
          + u.sliceValue j (n + 1) % v.sliceValue 0 n := by
        rw [Nat.add_mul]
        omega

theorem divideDigits_inv (hv : Normalized v n)
    (hqhatv : qhatv.digitLength = n + 1) (hu : u.sliceValue (m + 1) n < v.sliceValue 0 n)
    : let res := divideDigits v n m q qhatv u
      DivisionInv v u n m 0 res.1 res.2.1 res.2.2 := by
  unfold divideDigits
  apply Loop.foldRev_inv (m + 1) _ _ (fun j (a : Option (BigInt p) × BigInt p × BigInt p) =>
      DivisionInv v u n m j a.1 a.2.1 a.2.2)
  . constructor
    . rfl
    . rfl
    . exact hqhatv
    . intro i _
      rfl
    . intro i hi hlt
      omega
    . exact hu
    . refine ⟨0, ?_, ?_⟩
      . intro q' _
        rw [Nat.sub_self, sliceValue_zero]
      dsimp only
      rw [show m + n + 1 - (m + 1) = n by omega]
      omega
  . intro j hj ⟨q, qhatv, u⟩ h
    exact divisionInv_step hv hj h

end

/--
The quotient keeps its length and its sign.
-/
theorem divideDigits_quotient (v qhatv u : BigInt p) (n m : Nat) (q : Option (BigInt p))
    : (divideDigits v n m q qhatv u).1.map (fun q => (q.digitLength, q.isNegative)) =
      q.map (fun q => (q.digitLength, q.isNegative)) := by
  unfold divideDigits
  apply Loop.foldRev_inv (m + 1) _ _ (fun _ (a : Option (BigInt p) × BigInt p × BigInt p) =>
      a.1.map (fun q => (q.digitLength, q.isNegative)) = q.map (fun q => (q.digitLength, q.isNegative)))
  . rfl
  intro j _ ⟨q', qhatv, u⟩ h
  dsimp only at h ⊢
  rw [← h, Option.map_map]
  rfl

theorem absoluteLeftShiftAlwaysCopy_ensures (x : BigInt p) {shift : Nat}
    (hshift : shift < digitBits p) (mode : LeftShiftMode)
    (hfits : mode = .sameSizeResult → x.abs * 2 ^ shift < base p ^ x.digitLength)
    : Ensures (absoluteLeftShiftAlwaysCopy x shift mode)
        (fun r => r.isNegative = x.isNegative ∧ r.abs = x.abs * 2 ^ shift ∧
          r.digitLength = (if mode = .alwaysAddOneDigit then x.digitLength + 1 else x.digitLength) ∧
          r.digitLength ≤ maxDigitLength p) := by
  unfold absoluteLeftShiftAlwaysCopy
  apply Ensures.bind (createUninitialized_ensures _ _)
  rintro r ⟨hlen, hneg, hmax⟩
  rw [← hlen] at hmax
  dsimp only
  apply Ensures.ite
  . intro hzero
    have hcopy := copyDigits_sliceValue x r 0 0 x.digitLength
    have hset := sliceValue_setDigit_last (copyDigits x 0 r 0 x.digitLength) 0 x.digitLength 0
    rw [Nat.zero_add, toNat_zero, Nat.zero_mul, Nat.add_zero, hcopy] at hset
    rw [hzero, pow_zero, Nat.mul_one]
    apply Ensures.ite
    . intro hmode
      apply Ensures.pure
      rw [if_pos hmode] at hlen ⊢
      rw [setDigit_isNegative, copyDigits_isNegative, setDigit_digitLength, copyDigits_digitLength,
        abs, setDigit_digitLength, copyDigits_digitLength, hlen, hset]
      exact ⟨hneg, rfl, rfl, by omega⟩
    . intro hmode
      apply Ensures.pure
      rw [if_neg hmode] at hlen ⊢
      rw [copyDigits_isNegative, copyDigits_digitLength, abs, copyDigits_digitLength, hlen, hcopy]
      exact ⟨hneg, rfl, rfl, by omega⟩
  intro _
  obtain ⟨hlen', hneg', _, _, hval⟩ := shiftLeftDigits_inv x r hshift.le 0 x.digitLength
  generalize shiftLeftDigits x shift r 0 x.digitLength = res at *
  have hset := sliceValue_setDigit_last res.1 0 x.digitLength res.2
  rw [Nat.zero_add, hval] at hset
  apply Ensures.ite
  . intro hmode
    apply Ensures.pure
    rw [if_pos hmode] at hlen ⊢
    rw [setDigit_isNegative, setDigit_digitLength, abs, setDigit_digitLength, hlen', hlen, hset]
    exact ⟨by rw [hneg', hneg], rfl, rfl, by omega⟩
  intro hmode
  apply Ensures.pure
  rw [if_neg hmode] at hlen ⊢
  rw [abs, hlen', hlen, hneg', hneg]
  refine ⟨rfl, ?_, rfl, by omega⟩
  have hlt : x.abs * 2 ^ shift < base p ^ x.digitLength := by
    apply hfits
    cases mode with
    | sameSizeResult => rfl
    | alwaysAddOneDigit => contradiction
  have hcarry : res.2.toNat = 0 := by
    by_contra h
    have := Nat.le_mul_of_pos_left (base p ^ x.digitLength) (Nat.pos_of_ne_zero h)
    unfold abs at hlt
    omega
  rw [hcarry, Nat.zero_mul, Nat.add_zero] at hval
  exact hval

/--
In place the loop still reads the original digits.
-/
theorem inplaceShiftRightDigits_eq (x : BigInt p) (shift last : Nat)
    : inplaceShiftRightDigits x shift last = shiftRightDigits x 0 shift x last ∧
      ∀ i, last ≤ i → (inplaceShiftRightDigits x shift last).1.digit i = x.digit i := by
  induction last with
  | zero =>
    constructor
    . rfl
    . intro i _
      rfl
  | succ last ih =>
    have hin : inplaceShiftRightDigits x shift (last + 1) = ((inplaceShiftRightDigits x shift last).1.setDigit last
            (((inplaceShiftRightDigits x shift last).1.digit (last + 1) <<< (digitBits p - shift))
              ||| (inplaceShiftRightDigits x shift last).2),
          (inplaceShiftRightDigits x shift last).1.digit (last + 1) >>> shift) := by
      unfold inplaceShiftRightDigits
      rw [Nat.fold_succ]
    have hout : shiftRightDigits x 0 shift x (last + 1) = ((shiftRightDigits x 0 shift x last).1.setDigit last
            ((x.digit (last + 1) <<< (digitBits p - shift))
              ||| (shiftRightDigits x 0 shift x last).2), x.digit (last + 1) >>> shift) := by
      unfold shiftRightDigits
      rw [Nat.fold_succ]
    constructor
    . rw [hin, hout, ih.2 (last + 1) (by omega), ih.1]
    intro i hi
    rw [hin, setDigit_digit_of_ne _ _ (by omega)]
    apply ih.2
    omega

theorem inplaceRightShiftLowZeroBits_inv (x : BigInt p) {shift : Nat} (hshift : shift < digitBits p)
    (hlen : 0 < x.digitLength)
    : (inplaceRightShiftLowZeroBits x shift).digitLength = x.digitLength ∧
      (inplaceRightShiftLowZeroBits x shift).isNegative = x.isNegative ∧
      (inplaceRightShiftLowZeroBits x shift).abs = x.abs / 2 ^ shift := by
  unfold inplaceRightShiftLowZeroBits
  split
  . next hzero =>
    rw [hzero, pow_zero, Nat.div_one]
    exact ⟨rfl, rfl, rfl⟩
  have ⟨hslen, hsneg, _, hsval⟩ := shiftRightDigits_inv x x 0 hshift.le (x.digitLength - 1)
  dsimp only
  rw [(inplaceShiftRightDigits_eq x shift (x.digitLength - 1)).1]
  generalize shiftRightDigits x 0 shift x (x.digitLength - 1) = res at *
  have hset := sliceValue_setDigit_last res.1 0 (x.digitLength - 1) res.2
  rw [Nat.zero_add, hsval, Nat.sub_add_cancel hlen] at hset
  refine ⟨hslen, hsneg, ?_⟩
  rw [abs, setDigit_digitLength, hslen]
  exact hset

theorem allocateQuotient_ensures (quotient : Bool) (n : Nat) (b : Bool)
    : Ensures (allocateQuotient quotient n b : JSM p (Option (BigInt p)))
        (fun q => q.map (fun q => (q.digitLength, q.isNegative)) = (if quotient then some (n, b) else none) ∧
          (quotient = true → n ≤ maxDigitLength p)) := by
  unfold allocateQuotient
  apply Ensures.ite
  . intro hquotient
    apply Ensures.map
    apply Ensures.mono (createUninitialized_ensures _ _)
    intro r ⟨hlen, hneg, hmax⟩
    rw [if_pos hquotient]
    simp [hlen, hneg, hmax]
  . intro hquotient
    apply Ensures.pure
    rw [if_neg hquotient]
    simp [hquotient]

theorem trimQuotient_ensures (q : Option (BigInt p))
    : Ensures (trimQuotient q) (fun r => r = q.map trimHighZeroDigits) := by
  unfold trimQuotient
  split
  . apply Ensures.bind (Ensures.true _)
    intro _ _
    apply Ensures.pure
    rfl
  . apply Ensures.pure
    rfl

theorem shiftDivisor_ensures {y : BigInt p} {shift : Nat} (hshift : shift < digitBits p)
    (hfits : y.abs * 2 ^ shift < base p ^ y.digitLength)
    : Ensures (shiftDivisor y shift) (fun v => v.digitLength = y.digitLength ∧ v.abs = y.abs * 2 ^ shift) := by
  unfold shiftDivisor
  apply Ensures.ite
  . intro _
    apply Ensures.mono (absoluteLeftShiftAlwaysCopy_ensures y hshift .sameSizeResult (fun _ => hfits))
    intro v ⟨_, habs, hlen, _⟩
    exact ⟨hlen, habs⟩
  intro hzero
  apply Ensures.pure
  have : shift = 0 := by omega
  rw [this, pow_zero, Nat.mul_one]
  exact ⟨rfl, rfl⟩

/--
The divisor shifted by the leading zeroes of its most significant digit keeps its length and is
normalized.
-/
theorem normalize_fits {y : BigInt p} (hy : y.digitLength ≠ 0) {shift : Nat}
    (hlt : (y.digit (y.digitLength - 1)).toNat * 2 ^ shift < base p) (hdvd : 2 ^ shift ∣ base p)
    : y.abs * 2 ^ shift < base p ^ y.digitLength := by
  have htop := sliceValue_top y 0 (n := y.digitLength) (by omega)
  have hrest := sliceValue_lt y 0 (y.digitLength - 1)
  rw [Nat.zero_add] at htop
  obtain ⟨k, hk⟩ := hdvd
  have hk_lt : (y.digit (y.digitLength - 1)).toNat < k := by
    rw [hk, Nat.mul_comm] at hlt
    exact Nat.lt_of_mul_lt_mul_left hlt
  have hpow : base p ^ y.digitLength = base p ^ (y.digitLength - 1) * base p := by
    rw [← pow_succ]
    congr 1
    omega
  unfold abs
  calc y.sliceValue 0 y.digitLength * 2 ^ shift
      < ((y.digit (y.digitLength - 1)).toNat + 1) * base p ^ (y.digitLength - 1) * 2 ^ shift := by
        apply Nat.mul_lt_mul_of_pos_right
        . rw [Nat.add_mul]
          omega
        . positivity
    _ ≤ k * base p ^ (y.digitLength - 1) * 2 ^ shift := by
        apply Nat.mul_le_mul_right
        apply Nat.mul_le_mul_right
        exact hk_lt
    _ = base p ^ y.digitLength := by
        rw [hpow, hk]
        ring

theorem normalized_of_abs {v : BigInt p} (hn : 2 ≤ v.digitLength)
    (habs : base p ^ (v.digitLength - 1) * k ≤ v.abs) (hk : base p ≤ 2 * k)
    : Normalized v v.digitLength := by
  refine ⟨hn, rfl, ?_⟩
  have htop := sliceValue_top v 0 (n := v.digitLength) (by omega)
  have hrest := sliceValue_lt v 0 (v.digitLength - 1)
  rw [Nat.zero_add] at htop
  unfold abs at habs
  have hlt : k * base p ^ (v.digitLength - 1)
      < ((v.digit (v.digitLength - 1)).toNat + 1) * base p ^ (v.digitLength - 1) := by
    rw [Nat.add_mul, Nat.mul_comm k]
    omega
  have := Nat.lt_of_mul_lt_mul_right hlt
  omega

theorem absoluteDivWithBigIntDivisor_ensures {x y : BigInt p} (hy : Canonical y)
    (hn : 2 ≤ y.digitLength) (hlen : y.digitLength ≤ x.digitLength) (quotient remainder b : Bool)
    : Ensures (absoluteDivWithBigIntDivisor x y quotient remainder b) (fun r =>
          (quotient = true → ∃ q, r.1 = some q ∧ q.abs = x.abs / y.abs ∧ q.isNegative = b ∧
            0 < q.digitLength ∧ q.digitLength ≤ maxDigitLength p) ∧
          (remainder = true → ∃ u, r.2 = some u ∧ u.abs = x.abs % y.abs ∧
            u.isNegative = x.isNegative ∧ 0 < u.digitLength ∧ u.digitLength ≤ maxDigitLength p)) := by
  have hmsd := hy.msd_ne_zero (by omega)
  have hs := digitLeadingZeroes_lt hmsd
  have hnorm := base_le_normalize hmsd
  have hnorm_lt := toNat_lt_base (y.digit (y.digitLength - 1) <<< digitLeadingZeroes (y.digit (y.digitLength - 1)))
  rw [toNat_normalize] at hnorm hnorm_lt
  unfold absoluteDivWithBigIntDivisor
  dsimp only
  generalize digitLeadingZeroes (y.digit (y.digitLength - 1)) = shift at *
  have hpow : 0 < 2 ^ shift := Nat.two_pow_pos shift
  have hdvd : 2 ^ shift ∣ base p := ⟨_, by rw [Nat.mul_comm]; exact (two_pow_mul_two_pow_sub hs.le).symm⟩
  apply Ensures.bind (allocateQuotient_ensures _ _ _)
  rintro q ⟨hq, hqmax⟩
  apply Ensures.bind (createUninitialized_ensures _ _)
  rintro qhatv ⟨hqhatv, _, _⟩
  apply Ensures.bind (shiftDivisor_ensures hs (normalize_fits (by omega) hnorm_lt hdvd))
  rintro v ⟨hvlen, hvabs⟩
  apply Ensures.bind (absoluteLeftShiftAlwaysCopy_ensures x hs _ (by intro h; contradiction))
  rintro u ⟨huneg, huabs, hulen, humax⟩
  rw [if_pos rfl] at hulen
  have hv : Normalized v y.digitLength := by
    rw [← hvlen]
    apply normalized_of_abs (k := (y.digit (y.digitLength - 1)).toNat * 2 ^ shift)
    . omega
    . have htop := sliceValue_top y 0 (n := y.digitLength) (by omega)
      rw [Nat.zero_add] at htop
      rw [hvabs, hvlen, abs, htop, Nat.add_mul]
      calc base p ^ (y.digitLength - 1) * ((y.digit (y.digitLength - 1)).toNat * 2 ^ shift)
          = (y.digit (y.digitLength - 1)).toNat * base p ^ (y.digitLength - 1) * 2 ^ shift := by ring
        _ ≤ _ := Nat.le_add_right _ _
    . exact hnorm
  have hvslice : v.sliceValue 0 y.digitLength = y.abs * 2 ^ shift := by
    rw [← hvabs, abs, hvlen]
  have hupper : u.sliceValue (x.digitLength - y.digitLength + 1) y.digitLength < v.sliceValue 0 y.digitLength := by
    have hsplit := sliceValue_split u (show x.digitLength - y.digitLength + 1 ≤ u.digitLength by omega)
    rw [hulen, show x.digitLength + 1 - (x.digitLength - y.digitLength + 1) = y.digitLength by omega, huabs] at hsplit
    rw [hvslice]
    apply Nat.lt_of_mul_lt_mul_left (a := base p ^ (x.digitLength - y.digitLength + 1))
    have hyabs := hy.base_pow_le_abs (by omega)
    calc base p ^ (x.digitLength - y.digitLength + 1)
          * u.sliceValue (x.digitLength - y.digitLength + 1) y.digitLength
        ≤ x.abs * 2 ^ shift := by omega
      _ < base p ^ x.digitLength * 2 ^ shift := Nat.mul_lt_mul_of_pos_right (abs_lt x) hpow
      _ = base p ^ (x.digitLength - y.digitLength + 1) * (base p ^ (y.digitLength - 1) * 2 ^ shift) := by
        rw [← Nat.mul_assoc, ← Nat.pow_add]
        congr 2
        omega
      _ ≤ _ := by
        apply Nat.mul_le_mul_left
        apply Nat.mul_le_mul_right
        exact hyabs
  have hinv := divideDigits_inv (q := q) hv hqhatv hupper
  have hshape := divideDigits_quotient v qhatv u y.digitLength (x.digitLength - y.digitLength) q
  generalize divideDigits v y.digitLength (x.digitLength - y.digitLength) q qhatv u = res at *
  obtain ⟨q', qhatv', u'⟩ := res
  dsimp only at hinv hshape ⊢
  apply Ensures.bind (trimQuotient_ensures _)
  intro q'' hq''
  apply Ensures.pure
  obtain ⟨Q, hQ, hexact⟩ := hinv.exact
  rw [show x.digitLength - y.digitLength + y.digitLength + 1 - 0 = u.digitLength by omega, hvslice] at hexact
  change u.abs = _ at hexact
  have hrest := hinv.rest_lt
  rw [hvslice] at hrest
  rw [huabs] at hexact
  have hypos : 0 < y.abs * 2 ^ shift := by
    rw [← hvslice]
    exact hv.pos
  have hdiv : x.abs / y.abs = Q := by
    rw [← Nat.mul_div_mul_right _ _ hpow, hexact, Nat.mul_comm Q, Nat.mul_add_div hypos,
      Nat.div_eq_of_lt hrest, Nat.add_zero]
  have hmod : x.abs % y.abs * 2 ^ shift = u'.sliceValue 0 y.digitLength := by
    rw [← Nat.mul_mod_mul_right, hexact, Nat.mul_comm Q, Nat.mul_add_mod, Nat.mod_eq_of_lt hrest]
  constructor
  . intro hquotient
    rw [hq, if_pos hquotient, Option.map_eq_some_iff] at hshape
    obtain ⟨r, hr, hrshape⟩ := hshape
    rw [Prod.mk.injEq] at hrshape
    refine ⟨r.trimHighZeroDigits, ?_, ?_, ?_, ?_, ?_⟩
    . rw [hq'', hr]
      rfl
    . rw [trimHighZeroDigits_abs, hdiv, abs, hrshape.1]
      exact hQ r hr
    . rw [trimHighZeroDigits_isNegative, hrshape.2]
    . apply trimHighZeroDigits_length_pos
      omega
    . apply Nat.le_trans (trimHighZeroDigits_length_le r)
      rw [hrshape.1]
      exact hqmax hquotient
  intro hremainder
  rw [if_pos hremainder]
  have hu'len := hinv.length_u
  obtain ⟨hlen', hneg', habs'⟩ := inplaceRightShiftLowZeroBits_inv u' hs (by omega)
  refine ⟨_, rfl, ?_, ?_, ?_, ?_⟩
  . have hu'abs : u'.abs = u'.sliceValue 0 y.digitLength := by
      apply Radix.value_trim
      . omega
      intro i hi hlt
      rw [Nat.zero_add, hinv.high_digits i (by omega) (by omega)]
      rfl
    rw [habs', hu'abs, ← hmod, Nat.mul_div_cancel _ hpow]
  . rw [hneg', hinv.neg_u, huneg]
  . omega
  . omega

end SpiderMonkey.BigInt
