import SpiderMonkey.BigInt.Lemmas.Digit

/-!
This module contains the specification of `digitDiv`.
-/

namespace SpiderMonkey.BigInt

open BitVec

variable {p : Platform}

theorem halfBase_lt_base : halfBase p < base p := by
  rw [base_eq_half]
  have := two_le_halfBase (p := p)
  exact (Nat.lt_mul_iff_one_lt_left (by omega)).mpr (by omega)

theorem toNat_halfDigitBase : (halfDigitBase p).toNat = halfBase p := by
  unfold halfDigitBase
  rw [toNat_shiftLeft, toNat_one, Nat.one_shiftLeft]
  exact Nat.mod_eq_of_lt halfBase_lt_base

theorem toNat_sub_one {q : Digit p} (h : 0 < q.toNat) : (q - 1).toNat = q.toNat - 1 := by
  rw [toNat_sub_of_le]
  . rw [toNat_one]
  . rw [le_def, toNat_one]
    exact h

section

variable {vn1 vn0 un : Digit p} {ut : Nat}

theorem lowerHalfEstimate_test (hvn0 : vn0.toNat < halfBase p) (hun : un.toNat < halfBase p)
    (hU : ut * halfBase p + un.toNat < halfBase p * (vn1.toNat * halfBase p + vn0.toNat))
    (hrhat : rhat.toNat < halfBase p) (hq : q.toNat * vn1.toNat + rhat.toNat = ut)
    : (q ≥ halfDigitBase p ∨ q * vn0 > rhat * halfDigitBase p + un) ↔
      ut * halfBase p + un.toNat < q.toNat * (vn1.toNat * halfBase p + vn0.toNat) := by
  by_cases hlarge : halfBase p ≤ q.toNat
  . constructor
    . intro _
      calc ut * halfBase p + un.toNat
          < halfBase p * (vn1.toNat * halfBase p + vn0.toNat) := hU
        _ ≤ q.toNat * (vn1.toNat * halfBase p + vn0.toNat) := Nat.mul_le_mul_right _ hlarge
    intro _
    left
    rw [ge_iff_le, le_def, toNat_halfDigitBase]
    exact hlarge
  have hprod : (q * vn0).toNat = q.toNat * vn0.toNat :=
    toNat_mul_of_lt (mul_lt_base (by omega) hvn0)
  have hshift : (rhat * halfDigitBase p).toNat = rhat.toNat * halfBase p := by
    rw [toNat_mul_of_lt, toNat_halfDigitBase]
    rw [toNat_halfDigitBase, base_eq_half]
    exact Nat.mul_lt_mul_of_pos_right hrhat (by omega)
  have hsum : (rhat * halfDigitBase p + un).toNat = rhat.toNat * halfBase p + un.toNat := by
    rw [toNat_add_of_lt, hshift]
    rw [hshift, base_eq_half]
    calc rhat.toNat * halfBase p + un.toNat
        < rhat.toNat * halfBase p + halfBase p := by omega
      _ = (rhat.toNat + 1) * halfBase p := by ring
      _ ≤ halfBase p * halfBase p := Nat.mul_le_mul_right _ hrhat
  have htest := LongDivision.estimate_le_iff (halfBase p) vn0.toNat un.toNat hq
  constructor
  . intro h
    cases h with
    | inl h =>
      rw [ge_iff_le, le_def, toNat_halfDigitBase] at h
      omega
    | inr h =>
      rw [gt_iff_lt, lt_def, hprod, hsum] at h
      omega
  . intro h
    right
    rw [gt_iff_lt, lt_def, hprod, hsum]
    omega

theorem lowerHalfEstimate_toNat {q rhat : Digit p} (hvn1 : 0 < vn1.toNat)
    (hvn1_lt : vn1.toNat < halfBase p) (hvn0 : vn0.toNat < halfBase p) (hun : un.toNat < halfBase p)
    (hU : ut * halfBase p + un.toNat < halfBase p * (vn1.toNat * halfBase p + vn0.toNat))
    (hrhat : rhat.toNat < halfBase p) (hq : q.toNat * vn1.toNat + rhat.toNat = ut) (hqle : q.toNat ≤ halfBase p + 1)
    (hlt : ut * halfBase p + un.toNat < (q.toNat + 1) * (vn1.toNat * halfBase p + vn0.toNat))
    : (lowerHalfEstimate vn1 vn0 un q rhat).toNat =
      (ut * halfBase p + un.toNat) / (vn1.toNat * halfBase p + vn0.toNat) := by
  have htest := lowerHalfEstimate_test hvn0 hun hU hrhat hq
  have hnew : (rhat + vn1).toNat = rhat.toNat + vn1.toNat := by
    apply toNat_add_of_lt
    rw [base_eq_half]
    calc rhat.toNat + vn1.toNat
        < 2 * halfBase p := by omega
      _ ≤ halfBase p * halfBase p := Nat.mul_le_mul_right _ two_le_halfBase
  unfold lowerHalfEstimate
  split
  . next htoolarge =>
    have hgt := htest.mp htoolarge
    have hpos : 0 < q.toNat := by
      by_contra hzero
      have : q.toNat = 0 := by omega
      rw [this] at hgt
      omega
    have hpred := toNat_sub_one hpos
    have hq' : (q - 1).toNat * vn1.toNat + (rhat + vn1).toNat = ut := by
      rw [hpred, hnew, Nat.sub_mul, ← hq]
      have : vn1.toNat ≤ q.toNat * vn1.toNat := Nat.le_mul_of_pos_left _ hpos
      omega
    have hlt' : ut * halfBase p + un.toNat < ((q - 1).toNat + 1) * (vn1.toNat * halfBase p + vn0.toNat) := by
      rw [hpred, Nat.sub_add_cancel hpos]
      exact hgt
    dsimp only
    split
    . next hbreak =>
      rw [ge_iff_le, le_def, toNat_halfDigitBase] at hbreak
      symm
      apply LongDivision.div_eq_of_bounds
      . rw [← LongDivision.estimate_le_iff _ _ _ hq']
        calc (q - 1).toNat * vn0.toNat
            ≤ halfBase p * halfBase p := Nat.mul_le_mul (by omega) (by omega)
          _ ≤ (rhat + vn1).toNat * halfBase p := Nat.mul_le_mul_right _ hbreak
          _ ≤ (rhat + vn1).toNat * halfBase p + un.toNat := Nat.le_add_right _ _
      . exact hlt'
    . next hgoon =>
      rw [ge_iff_le, le_def, toNat_halfDigitBase] at hgoon
      split
      . apply lowerHalfEstimate_toNat hvn1 hvn1_lt hvn0 hun hU (by omega) hq' (by omega) hlt'
      next hstuck =>
      rw [lt_def] at hstuck
      omega
  . next hfits =>
    rw [htest] at hfits
    symm
    apply LongDivision.div_eq_of_bounds
    . omega
    . exact hlt
termination_by 2 ^ digitBits p - rhat.toNat
decreasing_by
  have : (rhat + vn1).toNat < 2 ^ digitBits p := (rhat + vn1).isLt
  omega

end

theorem toNat_mul_add_sub {a b c q d : Digit p} (ht : t < base p)
    (h : a.toNat * b.toNat + c.toNat = q.toNat * d.toNat + t)
    : (a * b + c - q * d).toNat = t := by
  have heq : a * b + c = BitVec.ofNat _ t + q * d := by
    apply eq_of_toNat_eq
    simp only [toNat_add, toNat_mul, toNat_ofNat, Nat.mod_add_mod, Nat.add_mod_mod]
    rw [h, Nat.add_comm]
  rw [heq, BitVec.add_sub_cancel, toNat_ofNat]
  exact Nat.mod_eq_of_lt ht

theorem lt_mul_of_le_pred {b u n d : Nat} (h : u < n) (hd : d < b) : u * b + d < n * b := by
  calc u * b + d
      < (u + 1) * b := by rw [Nat.add_mul]; omega
    _ ≤ n * b := Nat.mul_le_mul_right b h

/--
The high half of a normalized divisor is normalized.
-/
theorem halfBase_le_high_half {divisor : Digit p} (hnorm : base p ≤ 2 * divisor.toNat)
    : halfBase p ≤ 2 * (divisor >>> halfDigitBits p).toNat := by
  have hlow := mod_halfBase_lt (p := p) divisor.toNat
  have hV := Nat.div_add_mod' divisor.toNat (halfBase p)
  rw [toNat_ushiftRight_half]
  by_contra h
  have h1 : 2 * (divisor.toNat / halfBase p + 1) ≤ halfBase p := by
    have := two_dvd_halfBase (p := p)
    omega
  have h2 : 2 * (divisor.toNat / halfBase p + 1) * halfBase p ≤ halfBase p * halfBase p :=
    Nat.mul_le_mul_right _ h1
  have h3 : 2 * (divisor.toNat / halfBase p + 1) * halfBase p
      = 2 * (divisor.toNat / halfBase p * halfBase p) + 2 * halfBase p := by
    ring
  rw [base_eq_half] at hnorm
  omega

theorem toNat_sub_udiv_mul (x y : Digit p) : (x - x / y * y).toNat = x.toNat % y.toNat := by
  have hdiv : (x / y).toNat = x.toNat / y.toNat := toNat_udiv
  have hmod := Nat.div_add_mod' x.toNat y.toNat
  have hmul : (x / y * y).toNat = x.toNat / y.toNat * y.toNat := by
    rw [toNat_mul_of_lt, hdiv]
    rw [hdiv]
    have := toNat_lt_base x
    omega
  rw [toNat_sub_of_le]
  . rw [hmul]
    omega
  . rw [le_def, hmul]
    omega

/--
One round of `digitDiv`: the estimate from `vn1` is lowered to the exact half digit `q` of the
quotient and what remains is the exact remainder.
-/
theorem digitDiv_round {divisor un32 un1 : Digit p} (hnorm : base p ≤ 2 * divisor.toNat)
    (hun32 : un32.toNat < divisor.toNat) (hun1 : un1.toNat < halfBase p)
    : let vn1 := divisor >>> halfDigitBits p
      let vn0 := divisor &&& halfDigitMask p
      let q := lowerHalfEstimate vn1 vn0 un1 (un32 / vn1) (un32 - un32 / vn1 * vn1)
      q.toNat = (un32.toNat * halfBase p + un1.toNat) / divisor.toNat ∧
      (un32 * halfDigitBase p + un1 - q * divisor).toNat = (un32.toNat * halfBase p + un1.toNat) % divisor.toNat := by
  intro vn1 vn0 q
  have hHpos : 0 < halfBase p := by
    have := two_le_halfBase (p := p)
    omega
  have hvn1 : vn1.toNat = divisor.toNat / halfBase p := toNat_ushiftRight_half divisor
  have hvn0 : vn0.toNat = divisor.toNat % halfBase p := toNat_and_halfDigitMask divisor
  have hV : vn1.toNat * halfBase p + vn0.toNat = divisor.toNat := by
    rw [hvn1, hvn0, Nat.div_add_mod']
  have hvn0_lt : vn0.toNat < halfBase p := by
    rw [hvn0]
    apply mod_halfBase_lt
  have hvn1_lt : vn1.toNat < halfBase p := by
    rw [hvn1]
    apply div_halfBase_lt
  have hvn1_norm : halfBase p ≤ 2 * vn1.toNat := halfBase_le_high_half hnorm
  have hvn1_pos : 0 < vn1.toNat := by omega
  have hdiv : (un32 / vn1).toNat = un32.toNat / vn1.toNat := toNat_udiv
  have hmod := Nat.div_add_mod' un32.toNat vn1.toNat
  have hmod_lt := Nat.mod_lt un32.toNat hvn1_pos
  have hrhat := toNat_sub_udiv_mul un32 vn1
  have hq_le : (un32 / vn1).toNat ≤ halfBase p + 1 := by
    rw [hdiv]
    by_contra h
    have h1 : (halfBase p + 2) * vn1.toNat ≤ un32.toNat / vn1.toNat * vn1.toNat :=
      Nat.mul_le_mul_right _ (by omega)
    have h2 : (halfBase p + 2) * vn1.toNat = vn1.toNat * halfBase p + 2 * vn1.toNat := by
      ring
    omega
  have hq : q.toNat = (un32.toNat * halfBase p + un1.toNat) / divisor.toNat := by
    rw [← hV]
    apply lowerHalfEstimate_toNat hvn1_pos hvn1_lt hvn0_lt hun1
    . rw [hV, Nat.mul_comm]
      have := lt_mul_of_le_pred hun32 hun1
      linarith
    . rw [hrhat]
      omega
    . rw [hdiv, hrhat]
      exact hmod
    . exact hq_le
    . rw [hdiv]
      exact LongDivision.lt_succ_estimate_mul hun1 hmod_lt hmod
  refine ⟨hq, ?_⟩
  have hdivisor_pos : 0 < divisor.toNat := by omega
  apply toNat_mul_add_sub
  . apply Nat.lt_trans (Nat.mod_lt _ hdivisor_pos)
    apply toNat_lt_base
  . rw [hq, toNat_halfDigitBase, Nat.div_add_mod']

theorem digitDiv_toNat_x86 {high low divisor : Digit p} (hp : p.x86 = true) (h : high.toNat < divisor.toNat)
    : (digitDiv high low divisor).1.toNat = (high.toNat * base p + low.toNat) / divisor.toNat ∧
      (digitDiv high low divisor).2.toNat = (high.toNat * base p + low.toNat) % divisor.toNat := by
  have hpos : 0 < divisor.toNat := by omega
  have hdividend : (high ++ low).toNat = high.toNat * base p + low.toNat := by
    rw [toNat_append, ← Nat.shiftLeft_add_eq_or_of_lt low.isLt, Nat.shiftLeft_eq]
    rfl
  have hdivisor : (divisor.setWidth (digitBits p + digitBits p)).toNat = divisor.toNat := by
    rw [toNat_setWidth]
    apply Nat.mod_eq_of_lt
    apply Nat.lt_of_lt_of_le divisor.isLt
    apply Nat.pow_le_pow_right <;> omega
  unfold digitDiv
  rw [if_pos hp]
  dsimp only
  rw [toNat_setWidth, toNat_setWidth, toNat_udiv, toNat_umod, hdividend, hdivisor]
  constructor
  . apply Nat.mod_eq_of_lt
    rw [Nat.div_lt_iff_lt_mul hpos]
    have := lt_mul_of_le_pred h (toNat_lt_base low)
    unfold base at this ⊢
    linarith
  . apply Nat.mod_eq_of_lt
    apply Nat.lt_trans (Nat.mod_lt _ hpos) divisor.isLt

/--
Masking the shift distance and the result makes up for the shift by `digitBits` that is undefined.
-/
theorem masked_ushiftRight (hs : s < digitBits p) (low : Digit p)
    : (low >>> ((digitBits p - s) &&& (digitBits p - 1))) &&& (if s = 0 then 0 else digitMax p) =
      low >>> (digitBits p - s) := by
  by_cases hzero : s = 0
  . rw [if_pos hzero, hzero]
    apply eq_of_toNat_eq
    rw [toNat_and, toNat_ushiftRight, toNat_ushiftRight, Nat.sub_zero,
      Nat.shiftRight_eq_div_pow low.toNat (digitBits p), Nat.div_eq_of_lt low.isLt, toNat_zero, Nat.and_zero]
  have hmask : (digitBits p - s) &&& (digitBits p - 1) = digitBits p - s := by
    have hpow : ∃ k, digitBits p = 2 ^ k := by
      unfold digitBits
      split
      . exact ⟨6, rfl⟩
      . exact ⟨5, rfl⟩
    obtain ⟨k, hk⟩ := hpow
    rw [hk, Nat.and_two_pow_sub_one_eq_mod]
    apply Nat.mod_eq_of_lt
    omega
  rw [if_neg hzero, hmask, digitMax, and_allOnes]

/--
The dividend is shifted by as many bits as the divisor.
-/
theorem shifted_dividend {s : Nat} {high divisor : Digit p} (low : Digit p) (hs : s < digitBits p)
    (h : high.toNat < divisor.toNat) (hdivisor : divisor.toNat * 2 ^ s < base p)
    : let un32 := (high <<< s) ||| (low >>> (digitBits p - s))
      un32.toNat < divisor.toNat * 2 ^ s ∧
      un32.toNat * base p + (low <<< s).toNat = (high.toNat * base p + low.toNat) * 2 ^ s := by
  intro un32
  have hlt : (low >>> (digitBits p - s)).toNat < 2 ^ s := toNat_ushiftRight_lt hs.le low
  have hhigh : high.toNat * 2 ^ s + 2 ^ s ≤ divisor.toNat * 2 ^ s := by
    calc high.toNat * 2 ^ s + 2 ^ s
        = (high.toNat + 1) * 2 ^ s := by ring
      _ ≤ divisor.toNat * 2 ^ s := Nat.mul_le_mul_right _ h
  have hout : (high >>> (digitBits p - s)).toNat = 0 := by
    rw [toNat_ushiftRight, Nat.shiftRight_eq_div_pow]
    apply Nat.div_eq_of_lt
    apply Nat.lt_of_mul_lt_mul_right (a := 2 ^ s)
    rw [two_pow_mul_two_pow_sub hs.le]
    omega
  have hun32 : un32.toNat = high.toNat * 2 ^ s + (low >>> (digitBits p - s)).toNat := by
    have := toNat_shiftLeft_or hs.le high (low >>> (digitBits p - s)) hlt
    rw [hout, Nat.zero_mul, Nat.add_zero] at this
    exact this
  have hlow : (low <<< s).toNat + (low >>> (digitBits p - s)).toNat * base p = low.toNat * 2 ^ s := by
    have := toNat_shiftLeft_or hs.le low 0 (by rw [toNat_zero]; positivity)
    simpa using this
  constructor
  . omega
  rw [hun32]
  calc (high.toNat * 2 ^ s + (low >>> (digitBits p - s)).toNat) * base p + (low <<< s).toNat
      = high.toNat * base p * 2 ^ s + ((low <<< s).toNat + (low >>> (digitBits p - s)).toNat * base p) := by ring
    _ = (high.toNat * base p + low.toNat) * 2 ^ s := by
      rw [hlow]
      ring

/--
Two rounds divide the shifted dividend, half digit by half digit.
-/
theorem two_rounds_toNat {high low divisor : Digit p} (h : high.toNat < divisor.toNat)
    : let s := digitLeadingZeroes divisor
      let normalized := divisor <<< s
      let vn1 := normalized >>> halfDigitBits p
      let vn0 := normalized &&& halfDigitMask p
      let un32 := (high <<< s) ||| (low >>> (digitBits p - s))
      let un10 := low <<< s
      let un1 := un10 >>> halfDigitBits p
      let un0 := un10 &&& halfDigitMask p
      let q1 := lowerHalfEstimate vn1 vn0 un1 (un32 / vn1) (un32 - un32 / vn1 * vn1)
      let un21 := un32 * halfDigitBase p + un1 - q1 * normalized
      let q0 := lowerHalfEstimate vn1 vn0 un0 (un21 / vn1) (un21 - un21 / vn1 * vn1)
      (q1 * halfDigitBase p + q0).toNat = (high.toNat * base p + low.toNat) / divisor.toNat ∧
        ((un21 * halfDigitBase p + un0 - q0 * normalized) >>> s).toNat
          = (high.toNat * base p + low.toNat) % divisor.toNat := by
  have hne : divisor ≠ 0 := by
    intro hzero
    rw [hzero, toNat_zero] at h
    omega
  have hs := digitLeadingZeroes_lt hne
  have hnorm := base_le_normalize hne
  have hnormalize := toNat_normalize divisor
  dsimp only
  generalize digitLeadingZeroes divisor = s at *
  have ⟨hun32_lt, hdividend⟩ := shifted_dividend low hs h (by rw [← hnormalize]; apply toNat_lt_base)
  generalize (high <<< s) ||| (low >>> (digitBits p - s)) = un32 at *
  rw [← hnormalize] at hun32_lt
  have hun1_lt : (low <<< s >>> halfDigitBits p).toNat < halfBase p := by
    rw [toNat_ushiftRight_half]
    apply div_halfBase_lt
  have hun0_lt : (low <<< s &&& halfDigitMask p).toNat < halfBase p := by
    rw [toNat_and_halfDigitMask]
    apply mod_halfBase_lt
  have hun10 : (low <<< s >>> halfDigitBits p).toNat * halfBase p
      + (low <<< s &&& halfDigitMask p).toNat = (low <<< s).toNat := by
    rw [toNat_ushiftRight_half, toNat_and_halfDigitMask, Nat.div_add_mod']
  generalize low <<< s >>> halfDigitBits p = un1 at *
  generalize low <<< s &&& halfDigitMask p = un0 at *
  generalize divisor <<< s = normalized at *
  have hpos : 0 < normalized.toNat := by omega
  have ⟨hq1, hun21⟩ := digitDiv_round hnorm hun32_lt hun1_lt
  generalize lowerHalfEstimate _ _ un1 _ _ = q1 at *
  generalize un32 * halfDigitBase p + un1 - q1 * normalized = un21 at *
  have hun21_lt : un21.toNat < normalized.toNat := by
    rw [hun21]
    exact Nat.mod_lt _ hpos
  have ⟨hq0, hrem⟩ := digitDiv_round hnorm hun21_lt hun0_lt
  generalize lowerHalfEstimate _ _ un0 _ _ = q0 at *
  generalize un21 * halfDigitBase p + un0 - q0 * normalized = rem at *
  have hq1_lt : q1.toNat < halfBase p := by
    rw [hq1, Nat.div_lt_iff_lt_mul hpos, Nat.mul_comm (halfBase p)]
    exact lt_mul_of_le_pred hun32_lt hun1_lt
  have hq0_lt : q0.toNat < halfBase p := by
    rw [hq0, Nat.div_lt_iff_lt_mul hpos, Nat.mul_comm (halfBase p)]
    exact lt_mul_of_le_pred hun21_lt hun0_lt
  have hq : (q1 * halfDigitBase p + q0).toNat = q1.toNat * halfBase p + q0.toNat := by
    have hlt : q1.toNat * halfBase p + q0.toNat < base p := by
      rw [base_eq_half]
      exact lt_mul_of_le_pred hq1_lt hq0_lt
    have hmul : (q1 * halfDigitBase p).toNat = q1.toNat * halfBase p := by
      rw [toNat_mul_of_lt, toNat_halfDigitBase]
      rw [toNat_halfDigitBase]
      omega
    rw [toNat_add_of_lt, hmul]
    rwa [hmul]
  have hrem_lt : rem.toNat < normalized.toNat := by
    rw [hrem]
    exact Nat.mod_lt _ hpos
  have hdivmod : (high.toNat * base p + low.toNat) * 2 ^ s
      = (q1.toNat * halfBase p + q0.toNat) * normalized.toNat + rem.toNat := by
    have h1 := Nat.div_add_mod' (un32.toNat * halfBase p + un1.toNat) normalized.toNat
    have h0 := Nat.div_add_mod' (un21.toNat * halfBase p + un0.toNat) normalized.toNat
    rw [← hq1, ← hun21] at h1
    rw [← hq0, ← hrem] at h0
    calc (high.toNat * base p + low.toNat) * 2 ^ s
        = (un32.toNat * halfBase p + un1.toNat) * halfBase p + un0.toNat := by
          rw [← hdividend, ← hun10, base_eq_half]
          ring
      _ = q1.toNat * normalized.toNat * halfBase p + (un21.toNat * halfBase p + un0.toNat) := by
          rw [← h1]
          ring
      _ = (q1.toNat * halfBase p + q0.toNat) * normalized.toNat + rem.toNat := by
          rw [← h0]
          ring
  have hpow : 0 < 2 ^ s := Nat.two_pow_pos s
  constructor
  . rw [hq, ← Nat.mul_div_mul_right _ _ hpow, ← hnormalize, hdivmod, Nat.mul_comm _ normalized.toNat,
      Nat.mul_add_div hpos, Nat.div_eq_of_lt hrem_lt, Nat.add_zero]
  have hmod : rem.toNat = (high.toNat * base p + low.toNat) % divisor.toNat * 2 ^ s := by
    rw [← Nat.mul_mod_mul_right, ← hnormalize, hdivmod, Nat.mul_comm _ normalized.toNat,
      Nat.mul_add_mod, Nat.mod_eq_of_lt hrem_lt]
  rw [toNat_ushiftRight, Nat.shiftRight_eq_div_pow, hmod, Nat.mul_div_cancel _ hpow]

theorem digitDiv_toNat_portable {high low divisor : Digit p} (hp : p.x86 = false) (h : high.toNat < divisor.toNat)
    : (digitDiv high low divisor).1.toNat = (high.toNat * base p + low.toNat) / divisor.toNat ∧
      (digitDiv high low divisor).2.toNat = (high.toNat * base p + low.toNat) % divisor.toNat := by
  have hne : divisor ≠ 0 := by
    intro hzero
    rw [hzero, toNat_zero] at h
    omega
  unfold digitDiv
  rw [if_neg (by rw [hp]; exact Bool.false_ne_true)]
  dsimp only
  rw [masked_ushiftRight (digitLeadingZeroes_lt hne)]
  exact two_rounds_toNat h

theorem digitDiv_toNat (high low divisor : Digit p) (h : high.toNat < divisor.toNat)
    : (digitDiv high low divisor).1.toNat = (high.toNat * base p + low.toNat) / divisor.toNat ∧
      (digitDiv high low divisor).2.toNat = (high.toNat * base p + low.toNat) % divisor.toNat := by
  cases hp : p.x86 with
  | true => exact digitDiv_toNat_x86 hp h
  | false => exact digitDiv_toNat_portable hp h

end SpiderMonkey.BigInt
