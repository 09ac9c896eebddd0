import Mathlib.Tactic.Ring
import Mathlib.Tactic.Linarith

/-!
This module contains the number theory of schoolbook division in base `b`: how a quotient digit is
estimated from the leading digits of dividend and divisor and how far off the estimate can be.
-/

namespace LongDivision

variable {b v0 v1 u0 ut q r : Nat}

/--
The test on the remainder `r` of the leading digit decides whether the estimate `q` is too large for
one more digit.
-/
theorem estimate_le_iff (b v0 u0 : Nat) (h : q * v1 + r = ut)
    : q * v0 ≤ r * b + u0 ↔ q * (v1 * b + v0) ≤ ut * b + u0 := by
  have hexpand : q * (v1 * b + v0) + r * b = ut * b + q * v0 := by
    rw [← h]
    ring
  omega

theorem lt_succ_estimate_mul (hu : u0 < b) (hr : r < v1) (h : q * v1 + r = ut)
    : ut * b + u0 < (q + 1) * (v1 * b + v0) := by
  have hlt : ut + 1 ≤ (q + 1) * v1 := by
    rw [Nat.add_mul]
    omega
  calc ut * b + u0
      < (ut + 1) * b := by rw [Nat.add_mul]; omega
    _ ≤ (q + 1) * v1 * b := Nat.mul_le_mul_right b hlt
    _ = (q + 1) * (v1 * b) := by ring
    _ ≤ (q + 1) * (v1 * b + v0) := Nat.mul_le_mul_left _ (by omega)

theorem div_eq_of_bounds (hle : q * v ≤ u) (hlt : u < (q + 1) * v) : u / v = q := by
  apply Nat.div_eq_of_lt_le hle
  exact hlt

/--
Leading parts `u` and `v` never give a quotient that is too small for the whole numbers.
-/
theorem div_le_estimate (hv : 0 < v) (hul : ul < c)
    : (u * c + ul) / (v * c + vl) ≤ u / v := by
  rw [Nat.le_div_iff_mul_le hv]
  generalize hq : (u * c + ul) / (v * c + vl) = q
  have hmul : q * (v * c + vl) ≤ u * c + ul := by
    rw [← hq]
    apply Nat.div_mul_le_self
  have hlt : q * v * c < (u + 1) * c := by
    calc q * v * c
        = q * (v * c) := by ring
      _ ≤ q * (v * c + vl) := Nat.mul_le_mul_left q (by omega)
      _ ≤ u * c + ul := hmul
      _ < (u + 1) * c := by rw [Nat.add_mul]; omega
  have := Nat.lt_of_mul_lt_mul_right hlt
  omega

/--
An estimate from leading parts that does not exceed the leading part of the divisor is too large by
one at most.
-/
theorem estimate_le_div_succ (hv : 0 < v) (hvl : vl < c) (hq : q * v ≤ u)
    (hqv : q ≤ v + 1) : q ≤ (u * c + ul) / (v * c + vl) + 1 := by
  cases q with
  | zero => apply Nat.zero_le
  | succ k =>
    have hpos : 0 < v * c + vl := by
      have : 0 < v * c := Nat.mul_pos hv (by omega)
      omega
    have hkey : k * (v * c + vl) ≤ u * c + ul := by
      calc k * (v * c + vl)
          = k * v * c + k * vl := by ring
        _ ≤ k * v * c + v * c := by
          apply Nat.add_le_add_left
          apply Nat.mul_le_mul
          . omega
          . omega
        _ = (k + 1) * v * c := by ring
        _ ≤ u * c := Nat.mul_le_mul_right c hq
        _ ≤ u * c + ul := by omega
    apply Nat.succ_le_succ
    exact (Nat.le_div_iff_mul_le hpos).mpr hkey

/--
When the leading digits agree the largest digit is an estimate that is too large by one at most.
-/
theorem max_digit_le_div_succ (v1 c : Nat) (hlead : v1 * b * c ≤ u)
    (hv : v < (v1 + 1) * c) (hnorm : b ≤ 2 * v1) (hpos : 0 < v) : b - 1 ≤ u / v + 1 := by
  have hkey : (b - 2) * v ≤ u := by
    calc (b - 2) * v
        ≤ (b - 2) * ((v1 + 1) * c) := Nat.mul_le_mul_left _ hv.le
      _ = (b - 2) * (v1 + 1) * c := by ring
      _ ≤ v1 * b * c := by
        apply Nat.mul_le_mul_right
        by_cases hb : b ≤ 2
        . rw [Nat.sub_eq_zero_of_le hb]
          omega
        obtain ⟨k, rfl⟩ := Nat.exists_eq_add_of_le (Nat.le_of_not_le hb)
        rw [Nat.add_sub_cancel_left]
        calc k * (v1 + 1)
            = v1 * k + k := by ring
          _ ≤ v1 * k + v1 * 2 := by omega
          _ = v1 * (2 + k) := by ring
      _ ≤ u := hlead
  have := (Nat.le_div_iff_mul_le hpos).mpr hkey
  omega

/--
Subtracting the product with the estimate and, after a borrow out of the `n + 1` digits, adding the
divisor back leaves the remainder.
-/
theorem multiply_subtract {u v q r borrow bn : Nat} (hv : 0 < v) (hlow : u / v ≤ q)
    (hhigh : q ≤ u / v + 1) (h : r + q * v = u + borrow * bn) (hr : r < bn)
    : (borrow = 0 → q = u / v ∧ r = u % v) ∧ (borrow = 1 → q = u / v + 1 ∧ r + v = bn + u % v) := by
  have hdiv := Nat.div_add_mod' u v
  have hmod := Nat.mod_lt u hv
  have hq : q = u / v ∨ q = u / v + 1 := by omega
  have hsucc : (u / v + 1) * v = u / v * v + v := by ring
  constructor
  . intro hzero
    rw [hzero, Nat.zero_mul, Nat.add_zero] at h
    cases hq with
    | inl hq =>
      rw [hq] at h
      exact ⟨hq, by omega⟩
    | inr hq =>
      rw [hq, hsucc] at h
      omega
  intro hone
  rw [hone, Nat.one_mul] at h
  cases hq with
  | inl hq =>
    rw [hq] at h
    omega
  | inr hq =>
    rw [hq, hsucc] at h
    exact ⟨hq, by omega⟩

end LongDivision
