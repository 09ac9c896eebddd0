import SpiderMonkey.BigInt.Basic
import SpiderMonkey.Lib.Radix

/-!
This module contains what a `BigInt` stands for and when it is well formed.
-/

namespace SpiderMonkey.BigInt

variable {p : Platform}

def base (p : Platform) : Nat := 2 ^ digitBits p

/--
The number that the `n` digits from index `start` on stand for.
-/
def sliceValue (x : BigInt p) (start n : Nat) : Nat :=
  Radix.value (base p) (fun i => (x.digit (start + i)).toNat) n

def abs (x : BigInt p) : Nat := x.sliceValue 0 x.digitLength

def toInt (x : BigInt p) : Int := if x.isNegative then -(x.abs : Int) else x.abs

def signed (b : Bool) (k : Nat) : Int := if b then -(k : Int) else k

structure Canonical (x : BigInt p) : Prop where
  length_le : x.digitLength ≤ maxDigitLength p
  msd_ne_zero : x.digitLength ≠ 0 → x.digit (x.digitLength - 1) ≠ 0
  zero_nonneg : x.digitLength = 0 → x.isNegative = false

-- What an operation with the magnitude `k` and the sign `b` of its result is to return.
def Is (b : Bool) (k : Nat) (r : BigInt p) : Prop := Canonical r ∧ r.toInt = signed b k

theorem two_le_digitBits : 2 ≤ digitBits p := by
  unfold digitBits
  split <;> omega

theorem digitBits_eq_half : digitBits p = halfDigitBits p + halfDigitBits p := by
  unfold halfDigitBits digitBits
  split <;> rfl

theorem base_pos : 0 < base p := by
  apply Nat.two_pow_pos

theorem one_lt_base : 1 < base p := by
  have := two_le_digitBits (p := p)
  apply Nat.one_lt_two_pow
  omega

theorem toNat_lt_base (d : Digit p) : d.toNat < base p := d.isLt

@[simp]
theorem setDigit_digitLength (x : BigInt p) (i : Nat) (d : Digit p)
    : (x.setDigit i d).digitLength = x.digitLength := rfl

@[simp]
theorem setDigit_isNegative (x : BigInt p) (i : Nat) (d : Digit p)
    : (x.setDigit i d).isNegative = x.isNegative := rfl

@[simp]
theorem setDigit_digit_self (x : BigInt p) (i : Nat) (d : Digit p)
    : (x.setDigit i d).digit i = d := by
  simp [setDigit]

theorem setDigit_digit (x : BigInt p) (i j : Nat) (d : Digit p)
    : (x.setDigit i d).digit j = if j = i then d else x.digit j := by
  simp [setDigit, Function.update_apply]

@[simp]
theorem setDigit_digit_of_ne (x : BigInt p) {i j : Nat} (d : Digit p) (h : j ≠ i)
    : (x.setDigit i d).digit j = x.digit j := by
  simp [setDigit_digit, h]

@[simp]
theorem sliceValue_zero (x : BigInt p) (start : Nat) : x.sliceValue start 0 = 0 := by
  simp [sliceValue]

theorem sliceValue_succ (x : BigInt p) (start n : Nat)
    : x.sliceValue start (n + 1) = x.sliceValue start n + (x.digit (start + n)).toNat * base p ^ n := by
  simp [sliceValue, Radix.value_succ]

theorem sliceValue_add (x : BigInt p) (start m n : Nat)
    : x.sliceValue start (m + n) = x.sliceValue start m + base p ^ m * x.sliceValue (start + m) n := by
  simp [sliceValue, Radix.value_add, Nat.add_assoc]

theorem sliceValue_lt (x : BigInt p) (start n : Nat) : x.sliceValue start n < base p ^ n := by
  unfold sliceValue
  apply Radix.value_lt
  intro i _
  apply toNat_lt_base

theorem sliceValue_congr {x y : BigInt p} (h : ∀ i, i < n → x.digit (s + i) = y.digit (t + i))
    : x.sliceValue s n = y.sliceValue t n := by
  unfold sliceValue
  apply Radix.value_congr
  intro i hi
  rw [h i hi]

theorem sliceValue_setDigit_of_not_mem (x : BigInt p) {s n i : Nat} (d : Digit p)
    (h : i < s ∨ s + n ≤ i) : (x.setDigit i d).sliceValue s n = x.sliceValue s n := by
  apply sliceValue_congr
  intro j hj
  apply setDigit_digit_of_ne
  omega

theorem sliceValue_setDigit_last (x : BigInt p) (s n : Nat) (d : Digit p)
    : (x.setDigit (s + n) d).sliceValue s (n + 1) = x.sliceValue s n + d.toNat * base p ^ n := by
  rw [sliceValue_succ, sliceValue_setDigit_of_not_mem, setDigit_digit_self]
  omega

-- One step of a loop that writes the digit `d` and carries `c'` on to the next one.
theorem sliceValue_carry {r : BigInt p} {start i c c' t V : Nat}
    (hval : r.sliceValue start i + c * base p ^ i = V) (h : d.toNat + c' * base p = t + c)
    : (r.setDigit (start + i) d).sliceValue start (i + 1) + c' * base p ^ (i + 1) = V + t * base p ^ i := by
  rw [sliceValue_setDigit_last, Radix.carry_step h, ← hval]
  ring

theorem sliceValue_borrow {r : BigInt p} {start i c c' t u L R : Nat}
    (hval : r.sliceValue start i + R = L + c * base p ^ i) (h : d.toNat + u + c = t + c' * base p)
    : (r.setDigit (start + i) d).sliceValue start (i + 1) + (R + u * base p ^ i) =
      L + t * base p ^ i + c' * base p ^ (i + 1) := by
  have hscaled : (d.toNat + u + c) * base p ^ i = (t + c' * base p) * base p ^ i := by rw [h]
  rw [sliceValue_setDigit_last, pow_succ]
  linarith

theorem sliceValue_eq_zero_iff (x : BigInt p) (s n : Nat)
    : x.sliceValue s n = 0 ↔ ∀ i, i < n → x.digit (s + i) = 0 := by
  unfold sliceValue
  rw [Radix.value_eq_zero_iff base_pos]
  simp [BitVec.toNat_eq]

theorem Canonical.base_pow_le_abs {x : BigInt p} (h : Canonical x) (hx : x.digitLength ≠ 0)
    : base p ^ (x.digitLength - 1) ≤ x.abs := by
  have hmsd : 1 ≤ (x.digit (x.digitLength - 1)).toNat := by
    have := h.msd_ne_zero hx
    rw [ne_eq, BitVec.toNat_eq] at this
    simp at this
    omega
  have hle : (x.digit (0 + (x.digitLength - 1))).toNat * base p ^ (x.digitLength - 1)
      ≤ x.sliceValue 0 x.digitLength := by
    apply Radix.le_value (d := fun i => (x.digit (0 + i)).toNat)
    omega
  rw [Nat.zero_add] at hle
  calc base p ^ (x.digitLength - 1)
      = 1 * base p ^ (x.digitLength - 1) := by rw [Nat.one_mul]
    _ ≤ (x.digit (x.digitLength - 1)).toNat * base p ^ (x.digitLength - 1) := by
      apply Nat.mul_le_mul_right _ hmsd
    _ ≤ x.abs := hle

theorem Canonical.abs_eq_zero_iff {x : BigInt p} (h : Canonical x)
    : x.abs = 0 ↔ x.digitLength = 0 := by
  constructor
  . intro habs
    by_contra hx
    have := h.base_pow_le_abs hx
    have := Nat.pow_pos (n := x.digitLength - 1) (base_pos (p := p))
    omega
  . intro hx
    simp [abs, hx]

theorem abs_lt (x : BigInt p) : x.abs < base p ^ x.digitLength := by
  apply sliceValue_lt

theorem natAbs_toInt (x : BigInt p) : x.toInt.natAbs = x.abs := by
  unfold toInt
  split <;> simp

theorem Is.abs_eq (h : Is b k r) : r.abs = k := by
  rw [← natAbs_toInt, h.2]
  cases b
  . rfl
  . exact Int.natAbs_neg k

end SpiderMonkey.BigInt
