import SpiderMonkey.BigInt.Lemmas.Div
import SpiderMonkey.BigInt.Shift

/-!
This module contains the main results about `div` and `mod`.
-/

namespace SpiderMonkey.BigInt

variable {p : Platform}

theorem tdiv_toInt (x y : BigInt p)
    : x.toInt.tdiv y.toInt =
      if x.isNegative != y.isNegative then -((x.abs / y.abs : Nat) : Int) else (x.abs / y.abs : Nat) := by
  unfold toInt
  cases x.isNegative <;> cases y.isNegative <;> simp [Int.neg_tdiv, Int.tdiv_neg]

theorem tmod_toInt (x y : BigInt p)
    : x.toInt - y.toInt * x.toInt.tdiv y.toInt =
      if x.isNegative then -((x.abs % y.abs : Nat) : Int) else (x.abs % y.abs : Nat) := by
  have hdivmod : (y.abs : Int) * (x.abs / y.abs : Nat) + (x.abs % y.abs : Nat) = x.abs := by
    exact_mod_cast Nat.div_add_mod x.abs y.abs
  rw [tdiv_toInt]
  unfold toInt
  cases x.isNegative <;> cases y.isNegative <;> simp only [bne_self_eq_false, Bool.true_bne,
    Bool.false_bne, Bool.not_false, if_true, if_false, Bool.false_eq_true, Int.mul_neg, Int.neg_mul] <;>
    omega

theorem toInt_of_abs {r : BigInt p} (habs : r.abs = k) (hneg : r.isNegative = b)
    : r.toInt = if b then -(k : Int) else k := by
  rw [toInt, habs, hneg]

theorem trimOutput_ensures {q : BigInt p} (hpos : 0 < q.digitLength) (hmax : q.digitLength ≤ maxDigitLength p)
    : Ensures (trimOutput (some q)) (fun r => Canonical r ∧ r.toInt = q.toInt) := by
  apply destructivelyTrimHighZeroDigits_ensures hmax
  omega

theorem div_ensures (hx : Canonical x) (hy : Canonical y)
    : Ensures (div x y) (fun q => Canonical q ∧ q.toInt = x.toInt.tdiv y.toInt) := by
  unfold div
  apply Ensures.ite
  . intro _
    apply Ensures.throw
  intro hy0
  have hylen : y.digitLength ≠ 0 := by simpa [isZero] using hy0
  apply Ensures.ite
  . intro hx0
    have : x.digitLength = 0 := by simpa [isZero] using hx0
    apply Ensures.pure
    rw [toInt_of_length_zero this, Int.zero_tdiv]
    exact ⟨hx, rfl⟩
  intro hx0
  have hxlen : x.digitLength ≠ 0 := by simpa [isZero] using hx0
  apply Ensures.ite
  . intro hlt
    rw [absoluteCompare_neg_iff hx hy] at hlt
    apply Ensures.mono zero_ensures_toInt
    rintro r ⟨hr, hint⟩
    refine ⟨hr, ?_⟩
    rw [hint, tdiv_toInt, Nat.div_eq_of_lt hlt]
    simp
  intro hge
  rw [absoluteCompare_neg_iff hx hy] at hge
  rw [tdiv_toInt]
  dsimp only
  apply Ensures.ite
  . intro hone
    rw [abs_of_length_one hone] at hge ⊢
    apply Ensures.ite
    . intro hdivisor
      rw [hdivisor, toNat_one, Nat.div_one]
      apply Ensures.ite
      . intro hsign
        apply Ensures.pure
        rw [hsign]
        exact ⟨hx, rfl⟩
      intro hsign
      apply Ensures.mono (neg_ensures hx)
      rintro r ⟨hr, hint⟩
      refine ⟨hr, ?_⟩
      rw [hint, toInt]
      cases hxneg : x.isNegative <;> cases hyneg : y.isNegative <;> simp_all
    . intro hdivisor
      have hdivisor0 : y.digit 0 ≠ 0 := by
        have := hy.msd_ne_zero hylen
        rwa [hone] at this
      apply Ensures.bind (absoluteDivWithDigitDivisor_quotient hdivisor0 hdivisor _)
      rintro r ⟨q, hq, habs, hneg, hlen, hmax⟩
      rw [hq]
      apply Ensures.mono (trimOutput_ensures (by omega) hmax)
      rintro r ⟨hr, hint⟩
      rw [hint, toInt_of_abs habs hneg]
      exact ⟨hr, rfl⟩
  . intro hmany
    have hlen : y.digitLength ≤ x.digitLength := by
      by_contra h
      exact hge (abs_lt_of_length_lt hy (by omega))
    apply Ensures.bind (absoluteDivWithBigIntDivisor_ensures hy (by omega) hlen _ _ _)
    rintro r ⟨hquotient, _⟩
    obtain ⟨q, hq, habs, hneg, hpos, hmax⟩ := hquotient rfl
    rw [hq]
    apply Ensures.mono (trimOutput_ensures hpos hmax)
    rintro r ⟨hr, hint⟩
    rw [hint, toInt_of_abs habs hneg]
    exact ⟨hr, rfl⟩

theorem mod_ensures (hx : Canonical x) (hy : Canonical y)
    : Ensures (mod x y) (fun r => Canonical r ∧
          r.toInt = if x.isNegative then -((x.abs % y.abs : Nat) : Int) else (x.abs % y.abs : Nat)) := by
  unfold mod
  apply Ensures.ite
  . intro _
    apply Ensures.throw
  intro hy0
  have hylen : y.digitLength ≠ 0 := by simpa [isZero] using hy0
  apply Ensures.ite
  . intro hx0
    have : x.digitLength = 0 := by simpa [isZero] using hx0
    apply Ensures.pure
    refine ⟨hx, ?_⟩
    rw [toInt_of_length_zero this, hx.abs_eq_zero_iff.mpr this, Nat.zero_mod]
    simp
  intro hx0
  have hxlen : x.digitLength ≠ 0 := by simpa [isZero] using hx0
  apply Ensures.ite
  . intro hlt
    rw [absoluteCompare_neg_iff hx hy] at hlt
    apply Ensures.pure
    rw [Nat.mod_eq_of_lt hlt]
    exact ⟨hx, rfl⟩
  intro hge
  rw [absoluteCompare_neg_iff hx hy] at hge
  apply Ensures.ite
  . intro hone
    rw [abs_of_length_one hone]
    dsimp only
    apply Ensures.ite
    . intro hdivisor
      rw [hdivisor, toNat_one, Nat.mod_one]
      apply Ensures.mono zero_ensures_toInt
      rintro r ⟨hr, hint⟩
      exact ⟨hr, by rw [hint]; simp⟩
    intro hdivisor
    have hdivisor0 : y.digit 0 ≠ 0 := by
      have := hy.msd_ne_zero hylen
      rwa [hone] at this
    apply Ensures.bind (absoluteDivWithDigitDivisor_remainder hdivisor0 hdivisor _)
    intro r hr
    apply Ensures.ite
    . intro hzero
      rw [hzero, toNat_zero] at hr
      apply Ensures.mono zero_ensures_toInt
      rintro r' ⟨hr', hint⟩
      exact ⟨hr', by rw [hint, ← hr]; simp⟩
    intro hnonzero
    apply Ensures.mono (createFromDigit_ensures hnonzero _)
    rintro r' ⟨hr', habs, hneg⟩
    rw [toInt_of_abs habs hneg, hr]
    exact ⟨hr', rfl⟩
  . intro hmany
    have hlen : y.digitLength ≤ x.digitLength := by
      by_contra h
      exact hge (abs_lt_of_length_lt hy (by omega))
    apply Ensures.bind (absoluteDivWithBigIntDivisor_ensures hy (by omega) hlen _ _ _)
    rintro r ⟨_, hremainder⟩
    obtain ⟨u, hu, habs, hneg, hpos, hmax⟩ := hremainder rfl
    dsimp only
    rw [hu]
    apply Ensures.mono (trimOutput_ensures hpos hmax)
    rintro r ⟨hr, hint⟩
    rw [hint, toInt_of_abs habs hneg]
    exact ⟨hr, rfl⟩

/--
`div` is truncated division, `mod` is its remainder with the sign of the dividend, and in every
round of the long division a single add-back is enough for the exact quotient digit.
-/
theorem div_mod_exact (x y : BigInt p) (hx : Canonical x) (hy : Canonical y) (hy0 : y.toInt ≠ 0)
    : Ensures (div x y) (fun q => Canonical q ∧ q.toInt = x.toInt.tdiv y.toInt) ∧
      Ensures (mod x y) (fun r => Canonical r ∧ r.toInt = x.toInt - y.toInt * x.toInt.tdiv y.toInt ∧
        |r.toInt| < |y.toInt| ∧ (r.toInt ≠ 0 → r.toInt.sign = x.toInt.sign))
      ∧
      ∀ (v u qhatv : BigInt p) (n j : Nat), Normalized v n → qhatv.digitLength = n + 1
        → u.sliceValue j (n + 1) < v.sliceValue 0 n * base p
        → let q := u.sliceValue j (n + 1) / v.sliceValue 0 n
          let qhat := estimateQuotientDigit v u n j
          (qhat.toNat = q ∨ qhat.toNat = q + 1) ∧
          (subtractQuotientDigit v qhatv u n j qhat).2.2.toNat = q := by
  refine ⟨div_ensures hx hy, ?_, ?_⟩
  . apply Ensures.mono (mod_ensures hx hy)
    intro r ⟨hr, hint⟩
    have hyabs : 0 < y.abs := by
      rw [← natAbs_toInt]
      omega
    have hlt := Nat.mod_lt x.abs hyabs
    have hle := Nat.mod_le x.abs y.abs
    refine ⟨hr, ?_, ?_, ?_⟩
    . rw [hint, tmod_toInt]
    . rw [Int.abs_eq_natAbs, Int.abs_eq_natAbs, natAbs_toInt y, hint]
      split <;> omega
    intro hne
    rw [hint] at hne ⊢
    unfold toInt
    split
    . next hneg =>
      rw [if_pos hneg] at hne
      rw [Int.sign_eq_neg_one_of_neg (by omega), Int.sign_eq_neg_one_of_neg (by omega)]
    next hneg =>
    rw [if_neg hneg] at hne
    rw [Int.sign_eq_one_of_pos (by omega), Int.sign_eq_one_of_pos (by omega)]
  . intro v u qhatv n j hv hqhatv hu q qhat
    have ⟨hlow, hhigh⟩ := estimateQuotientDigit_bounds hv hu
    have hround := subtractQuotientDigit_inv hv hqhatv hlow hhigh
    refine ⟨?_, hround.2.2.2.2.2.2⟩
    cases Nat.lt_or_ge q qhat.toNat with
    | inl hlt => exact Or.inr (Nat.le_antisymm hhigh hlt)
    | inr hge => exact Or.inl (Nat.le_antisymm hge hlow)

theorem div_mod_exact_threeDigits
    : Ensures (div threeNegativeDigits twoDigits)
        (fun q => Canonical q ∧ q.toInt = -((2 ^ 129 - 1) / (3 * 2 ^ 64 + 5)))
      ∧ Ensures (mod threeNegativeDigits twoDigits)
        (fun r => Canonical r ∧ r.toInt = -((2 ^ 129 - 1) % (3 * 2 ^ 64 + 5))) := by
  have hne : twoDigits.toInt ≠ 0 := by
    rw [toInt_twoDigits]
    decide
  have hexact := div_mod_exact threeNegativeDigits twoDigits threeNegativeDigits_canonical twoDigits_canonical hne
  rw [toInt_twoDigits, toInt_threeNegativeDigits] at hexact
  constructor
  . apply hexact.1.mono
    intro q ⟨hq, hint⟩
    exact ⟨hq, hint.trans (by decide +kernel)⟩
  . apply hexact.2.1.mono
    intro r ⟨hr, hint, _⟩
    exact ⟨hr, hint.trans (by decide +kernel)⟩

end SpiderMonkey.BigInt
