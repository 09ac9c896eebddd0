import SpiderMonkey.BigInt.Spec
import SpiderMonkey.BigInt.Impl.Digit
import SpiderMonkey.Lib.LongDivision

/-!
This module contains the specifications of the single digit operations as equations between
natural numbers.
-/

namespace SpiderMonkey.BigInt

open BitVec

variable {p : Platform}

@[simp]
theorem toNat_zero : (0 : Digit p).toNat = 0 := by
  apply Nat.zero_mod

@[simp]
theorem toNat_one : (1 : Digit p).toNat = 1 := by
  exact Nat.mod_eq_of_lt one_lt_base

theorem toNat_add_of_lt {a b : Digit p} (h : a.toNat + b.toNat < base p)
    : (a + b).toNat = a.toNat + b.toNat := by
  rw [toNat_add]
  exact Nat.mod_eq_of_lt h

theorem toNat_succ {c : Digit p} (h : c.toNat + 1 < base p) : (c + 1).toNat = c.toNat + 1 := by
  rw [toNat_add_of_lt] <;> rw [toNat_one]
  assumption

theorem digitAdd_toNat (a b c : Digit p) (hc : c.toNat + 1 < base p)
    : (digitAdd a b c).1.toNat + (digitAdd a b c).2.toNat * base p = a.toNat + b.toNat + c.toNat * base p := by
  have ha := toNat_lt_base a
  have hb := toNat_lt_base b
  have hsum : (a + b).toNat = (a.toNat + b.toNat) % base p := toNat_add a b
  unfold digitAdd
  dsimp only
  by_cases hcarry : a.toNat + b.toNat < base p
  . rw [Nat.mod_eq_of_lt hcarry] at hsum
    rw [if_neg]
    . rw [hsum]
      simp
    . simp only [lt_def]
      omega
  rw [Nat.mod_eq_sub_mod (by omega), Nat.mod_eq_of_lt (by omega)] at hsum
  rw [if_pos]
  . rw [toNat_succ hc, Nat.add_mul, Nat.one_mul, hsum]
    omega
  . simp only [lt_def]
    omega

theorem digitAdd_carry_le (a b c : Digit p) (hc : c.toNat + 1 < base p)
    : (digitAdd a b c).2.toNat ≤ c.toNat + 1 := by
  unfold digitAdd
  dsimp only
  split
  . rw [toNat_succ hc]
  . simp

theorem digitSub_toNat (l r c : Digit p) (hc : c.toNat + 1 < base p)
    : (digitSub l r c).1.toNat + r.toNat + c.toNat * base p = l.toNat + (digitSub l r c).2.toNat * base p := by
  have hl := toNat_lt_base l
  have hr := toNat_lt_base r
  have hdiff : (l - r).toNat = (base p - r.toNat + l.toNat) % base p := toNat_sub l r
  unfold digitSub
  dsimp only
  by_cases hborrow : l.toNat < r.toNat
  . rw [Nat.mod_eq_of_lt (by omega)] at hdiff
    rw [if_pos]
    . rw [toNat_succ hc, Nat.add_mul, Nat.one_mul, hdiff]
      omega
    . simp only [gt_iff_lt, lt_def]
      omega
  rw [Nat.mod_eq_sub_mod (by omega), Nat.mod_eq_of_lt (by omega)] at hdiff
  rw [if_neg]
  . rw [hdiff]
    simp
    omega
  . simp only [gt_iff_lt, lt_def]
    omega

theorem digitSub_borrow_le (l r c : Digit p) (hc : c.toNat + 1 < base p)
    : (digitSub l r c).2.toNat ≤ c.toNat + 1 := by
  unfold digitSub
  dsimp only
  split
  . rw [toNat_succ hc]
  . simp

theorem two_pow_mul_two_pow_sub (hs : s ≤ digitBits p)
    : 2 ^ (digitBits p - s) * 2 ^ s = base p := by
  unfold base
  rw [← Nat.pow_add, Nat.sub_add_cancel hs]

/--
A digit shifted left, filled up with the bits `c` shifted out of the digit below, and the bits that
are shifted out of it.
-/
theorem toNat_shiftLeft_or (hs : s ≤ digitBits p) (d c : Digit p) (hc : c.toNat < 2 ^ s)
    : ((d <<< s) ||| c).toNat + (d >>> (digitBits p - s)).toNat * base p = d.toNat * 2 ^ s + c.toNat := by
  have hbase := two_pow_mul_two_pow_sub hs
  have hshift : (d <<< s).toNat = (d.toNat % 2 ^ (digitBits p - s)) <<< s := by
    rw [toNat_shiftLeft, Nat.shiftLeft_eq, Nat.shiftLeft_eq, ← Nat.mul_mod_mul_right, hbase]
    rfl
  rw [toNat_or, hshift, ← Nat.shiftLeft_add_eq_or_of_lt hc, Nat.shiftLeft_eq,
    toNat_ushiftRight, Nat.shiftRight_eq_div_pow, ← hbase]
  have hd := Nat.mod_add_div' d.toNat (2 ^ (digitBits p - s))
  calc d.toNat % 2 ^ (digitBits p - s) * 2 ^ s + c.toNat
        + d.toNat / 2 ^ (digitBits p - s) * (2 ^ (digitBits p - s) * 2 ^ s)
      = (d.toNat % 2 ^ (digitBits p - s)
          + d.toNat / 2 ^ (digitBits p - s) * 2 ^ (digitBits p - s)) * 2 ^ s + c.toNat := by ring
    _ = d.toNat * 2 ^ s + c.toNat := by rw [hd]

theorem toNat_shiftLeft_of_lt {s : Nat} {d : Digit p} (h : d.toNat * 2 ^ s < base p)
    : (d <<< s).toNat = d.toNat * 2 ^ s := by
  rw [toNat_shiftLeft, Nat.shiftLeft_eq]
  exact Nat.mod_eq_of_lt h

theorem toNat_ushiftRight_lt (hs : s ≤ digitBits p) (d : Digit p)
    : (d >>> (digitBits p - s)).toNat < 2 ^ s := by
  rw [toNat_ushiftRight, Nat.shiftRight_eq_div_pow, Nat.div_lt_iff_lt_mul (by positivity),
    Nat.mul_comm, two_pow_mul_two_pow_sub hs]
  apply toNat_lt_base

theorem toNat_natCast_digitBits : ((digitBits p : Nat) : Digit p).toNat = digitBits p := by
  rw [natCast_eq_ofNat, toNat_ofNat]
  exact Nat.mod_eq_of_lt Nat.lt_two_pow_self

theorem digitLeadingZeroes_le (d : Digit p) : digitLeadingZeroes d ≤ digitBits p := by
  have := clz_le (x := d)
  rw [le_def, toNat_natCast_digitBits] at this
  exact this

theorem digitLeadingZeroes_lt {d : Digit p} (hd : d ≠ 0) : digitLeadingZeroes d < digitBits p := by
  have := clz_lt_iff_ne_zero.mpr hd
  rw [lt_def, toNat_natCast_digitBits] at this
  exact this

/--
Shifting out the leading zeroes loses no bit.
-/
theorem toNat_normalize (d : Digit p)
    : (d <<< digitLeadingZeroes d).toNat = d.toNat * 2 ^ digitLeadingZeroes d := by
  apply toNat_shiftLeft_of_lt
  rw [← two_pow_mul_two_pow_sub (digitLeadingZeroes_le d)]
  apply Nat.mul_lt_mul_of_pos_right
  . apply toNat_lt_two_pow_sub_clz
  . positivity

theorem base_le_normalize {d : Digit p} (hd : d ≠ 0)
    : base p ≤ 2 * (d <<< digitLeadingZeroes d).toNat := by
  have hpos := two_le_digitBits (p := p)
  have hle := two_pow_sub_clz_le_toNat_of_ne_zero (by omega) hd
  have hlt := toNat_lt_two_pow_sub_clz (x := d)
  have hs := digitLeadingZeroes_lt hd
  rw [toNat_normalize]
  calc base p
      = 2 ^ (digitBits p - 1 - digitLeadingZeroes d + digitLeadingZeroes d + 1) := by
        unfold base
        congr 1
        omega
    _ = 2 * (2 ^ (digitBits p - 1 - digitLeadingZeroes d) * 2 ^ digitLeadingZeroes d) := by
      rw [Nat.pow_succ, Nat.pow_add]
      ring
    _ ≤ 2 * (d.toNat * 2 ^ digitLeadingZeroes d) := by
      apply Nat.mul_le_mul_left
      apply Nat.mul_le_mul_right
      exact hle

def halfBase (p : Platform) : Nat := 2 ^ halfDigitBits p

theorem base_eq_half : base p = halfBase p * halfBase p := by
  unfold base halfBase
  rw [digitBits_eq_half, Nat.pow_add]

theorem two_le_halfBase : 2 ≤ halfBase p := by
  unfold halfBase halfDigitBits digitBits
  split <;> simp

theorem two_dvd_halfBase : 2 ∣ halfBase p := by
  unfold halfBase halfDigitBits digitBits
  split <;> simp

theorem toNat_and_halfDigitMask (a : Digit p)
    : (a &&& halfDigitMask p).toNat = a.toNat % halfBase p := by
  have hmask : (halfDigitMask p).toNat = 2 ^ halfDigitBits p - 1 := by
    unfold halfDigitMask
    rw [toNat_ofNat]
    apply Nat.mod_eq_of_lt
    have : 2 ^ halfDigitBits p ≤ 2 ^ digitBits p := by
      apply Nat.pow_le_pow_right
      . omega
      . rw [digitBits_eq_half]
        omega
    have := Nat.two_pow_pos (halfDigitBits p)
    omega
  rw [toNat_and, hmask, Nat.and_two_pow_sub_one_eq_mod]
  rfl

theorem toNat_ushiftRight_half (a : Digit p)
    : (a >>> halfDigitBits p).toNat = a.toNat / halfBase p := by
  rw [toNat_ushiftRight, Nat.shiftRight_eq_div_pow]
  rfl

theorem toNat_shiftLeft_half (a : Digit p)
    : (a <<< halfDigitBits p).toNat = a.toNat % halfBase p * halfBase p := by
  rw [toNat_shiftLeft, Nat.shiftLeft_eq]
  have : 2 ^ digitBits p = halfBase p * halfBase p := base_eq_half
  rw [this]
  apply Nat.mul_mod_mul_right

theorem div_halfBase_lt (a : Digit p) : a.toNat / halfBase p < halfBase p := by
  rw [Nat.div_lt_iff_lt_mul (by have := two_le_halfBase (p := p); omega), ← base_eq_half]
  apply toNat_lt_base

theorem mod_halfBase_lt (a : Nat) : a % halfBase p < halfBase p := by
  apply Nat.mod_lt
  have := two_le_halfBase (p := p)
  omega

theorem mul_lt_base (ha : a < halfBase p) (hb : b < halfBase p) : a * b < base p := by
  rw [base_eq_half]
  apply Nat.mul_lt_mul'' ha hb

theorem toNat_mul_of_lt {a b : Digit p} (h : a.toNat * b.toNat < base p)
    : (a * b).toNat = a.toNat * b.toNat := by
  rw [toNat_mul]
  exact Nat.mod_eq_of_lt h

theorem digitMul_toNat_wide (a b : Digit p) (h : haveTwoDigit p = true)
    : (digitMul a b).1.toNat + (digitMul a b).2.toNat * base p = a.toNat * b.toNat := by
  have hlt : a.toNat * b.toNat < base p * base p :=
    Nat.mul_lt_mul'' (toNat_lt_base a) (toNat_lt_base b)
  have hpow : 2 ^ (digitBits p + digitBits p) = base p * base p := Nat.pow_add _ _ _
  have hbase : base p ≤ base p * base p := Nat.le_mul_of_pos_left _ base_pos
  have hprod : (a.setWidth (digitBits p + digitBits p) * b.setWidth _).toNat = a.toNat * b.toNat := by
    rw [toNat_mul, toNat_setWidth, toNat_setWidth, hpow, Nat.mod_eq_of_lt (Nat.lt_of_lt_of_le (toNat_lt_base a) hbase),
      Nat.mod_eq_of_lt (Nat.lt_of_lt_of_le (toNat_lt_base b) hbase), Nat.mod_eq_of_lt hlt]
  unfold digitMul
  rw [if_pos h]
  dsimp only
  rw [toNat_setWidth, toNat_setWidth, toNat_ushiftRight, hprod, Nat.shiftRight_eq_div_pow]
  change a.toNat * b.toNat % base p + a.toNat * b.toNat / base p % base p * base p = _
  have hdiv : a.toNat * b.toNat / base p < base p := by
    rwa [Nat.div_lt_iff_lt_mul base_pos]
  rw [Nat.mod_eq_of_lt hdiv, Nat.mod_add_div']

/--
The column sums of the half digit products, with the carry of the low digit.
-/
theorem half_columns {H a b r1 r2 : Nat} (lo c : Nat) (hr1 : r1 = a % H * (b / H)) (hr2 : r2 = a / H * (b % H))
    (hlo : lo + c * (H * H) = a % H * (b % H) + r1 % H * H + r2 % H * H)
    : lo + (r1 / H + r2 / H + a / H * (b / H) + c) * (H * H) = a * b := by
  have ha := Nat.mod_add_div' a H
  have hb := Nat.mod_add_div' b H
  have h1 := Nat.mod_add_div' r1 H
  have h2 := Nat.mod_add_div' r2 H
  calc lo + (r1 / H + r2 / H + a / H * (b / H) + c) * (H * H)
      = (lo + c * (H * H)) + (r1 / H * H + r2 / H * H) * H + a / H * (b / H) * (H * H) := by ring
    _ = a % H * (b % H) + (r1 % H + r1 / H * H) * H + (r2 % H + r2 / H * H) * H
          + a / H * (b / H) * (H * H) := by rw [hlo]; ring
    _ = a % H * (b % H) + (a % H * (b / H)) * H + (a / H * (b % H)) * H
          + a / H * (b / H) * (H * H) := by rw [h1, h2, hr1, hr2]
    _ = (a % H + a / H * H) * (b % H + b / H * H) := by ring
    _ = a * b := by rw [ha, hb]

/--
The half digits are multiplied and added up column by column, without two digit integers.
-/
theorem half_product_toNat (a b : Digit p)
    : let aLow := a &&& halfDigitMask p
      let aHigh := a >>> halfDigitBits p
      let bLow := b &&& halfDigitMask p
      let bHigh := b >>> halfDigitBits p
      let rMid1 := aLow * bHigh
      let rMid2 := aHigh * bLow
      let low1 := digitAdd (aLow * bLow) (rMid1 <<< halfDigitBits p) 0
      let low2 := digitAdd low1.1 (rMid2 <<< halfDigitBits p) low1.2
      let high := (rMid1 >>> halfDigitBits p) + (rMid2 >>> halfDigitBits p) + aHigh * bHigh + low2.2
      low2.1.toNat + high.toNat * base p = a.toNat * b.toNat := by
  have haL := toNat_and_halfDigitMask a
  have hbL := toNat_and_halfDigitMask b
  have haH := toNat_ushiftRight_half a
  have hbH := toNat_ushiftRight_half b
  have haL_lt := mod_halfBase_lt (p := p) a.toNat
  have hbL_lt := mod_halfBase_lt (p := p) b.toNat
  have haH_lt := div_halfBase_lt a
  have hbH_lt := div_halfBase_lt b
  dsimp only
  generalize a &&& halfDigitMask p = aLow at *
  generalize b &&& halfDigitMask p = bLow at *
  generalize a >>> halfDigitBits p = aHigh at *
  generalize b >>> halfDigitBits p = bHigh at *
  have hrLow : (aLow * bLow).toNat = aLow.toNat * bLow.toNat :=
    toNat_mul_of_lt (by rw [haL, hbL]; exact mul_lt_base haL_lt hbL_lt)
  have hrMid1 : (aLow * bHigh).toNat = aLow.toNat * bHigh.toNat :=
    toNat_mul_of_lt (by rw [haL, hbH]; exact mul_lt_base haL_lt hbH_lt)
  have hrMid2 : (aHigh * bLow).toNat = aHigh.toNat * bLow.toNat :=
    toNat_mul_of_lt (by rw [haH, hbL]; exact mul_lt_base haH_lt hbL_lt)
  have hrHigh : (aHigh * bHigh).toNat = aHigh.toNat * bHigh.toNat :=
    toNat_mul_of_lt (by rw [haH, hbH]; exact mul_lt_base haH_lt hbH_lt)
  have hbase : 4 ≤ base p := by
    rw [base_eq_half]
    exact Nat.mul_le_mul two_le_halfBase two_le_halfBase
  have hadd1 := digitAdd_toNat (aLow * bLow) ((aLow * bHigh) <<< halfDigitBits p) 0 (by rw [toNat_zero]; omega)
  have hle1 := digitAdd_carry_le (aLow * bLow) ((aLow * bHigh) <<< halfDigitBits p) 0 (by rw [toNat_zero]; omega)
  generalize digitAdd (aLow * bLow) ((aLow * bHigh) <<< halfDigitBits p) 0 = low1 at *
  rw [toNat_zero] at hadd1 hle1
  have hadd2 := digitAdd_toNat low1.1 ((aHigh * bLow) <<< halfDigitBits p) low1.2 (by omega)
  generalize digitAdd low1.1 ((aHigh * bLow) <<< halfDigitBits p) low1.2 = low2 at *
  rw [toNat_shiftLeft_half, hrLow, hrMid1] at hadd1
  rw [toNat_shiftLeft_half, hrMid2] at hadd2
  have hcolumns := half_columns low2.1.toNat low2.2.toNat
    (show aLow.toNat * bHigh.toNat = a.toNat % halfBase p * (b.toNat / halfBase p) by rw [haL, hbH])
    (show aHigh.toNat * bLow.toNat = a.toNat / halfBase p * (b.toNat % halfBase p) by rw [haH, hbL])
    (by rw [← base_eq_half, ← haL, ← hbL]; omega)
  rw [← base_eq_half, ← haH, ← hbH] at hcolumns
  have hhigh_lt : aLow.toNat * bHigh.toNat / halfBase p + aHigh.toNat * bLow.toNat / halfBase p
      + aHigh.toNat * bHigh.toNat + low2.2.toNat < base p := by
    have hlt : a.toNat * b.toNat < base p * base p :=
      Nat.mul_lt_mul'' (toNat_lt_base a) (toNat_lt_base b)
    apply Nat.lt_of_mul_lt_mul_right (a := base p)
    omega
  have hm1 : ((aLow * bHigh) >>> halfDigitBits p).toNat = aLow.toNat * bHigh.toNat / halfBase p := by
    rw [toNat_ushiftRight_half, hrMid1]
  have hm2 : ((aHigh * bLow) >>> halfDigitBits p).toNat = aHigh.toNat * bLow.toNat / halfBase p := by
    rw [toNat_ushiftRight_half, hrMid2]
  have hs1 := toNat_add_of_lt (a := (aLow * bHigh) >>> halfDigitBits p)
    (b := (aHigh * bLow) >>> halfDigitBits p) (by omega)
  have hs2 := toNat_add_of_lt (a := (aLow * bHigh) >>> halfDigitBits p +
    (aHigh * bLow) >>> halfDigitBits p) (b := aHigh * bHigh) (by omega)
  have hs3 := toNat_add_of_lt (a := (aLow * bHigh) >>> halfDigitBits p +
    (aHigh * bLow) >>> halfDigitBits p + aHigh * bHigh) (b := low2.2) (by omega)
  rw [hs3, hs2, hs1, hm1, hm2, hrHigh]
  exact hcolumns

theorem digitMul_toNat_half (a b : Digit p) (h : haveTwoDigit p = false)
    : (digitMul a b).1.toNat + (digitMul a b).2.toNat * base p = a.toNat * b.toNat := by
  unfold digitMul
  rw [if_neg (by rw [h]; exact Bool.false_ne_true)]
  apply half_product_toNat

/--
Both variants of `digitMul` return the two digits of the product.
-/
theorem digitMul_toNat (a b : Digit p)
    : (digitMul a b).1.toNat + (digitMul a b).2.toNat * base p = a.toNat * b.toNat := by
  cases h : haveTwoDigit p with
  | true => exact digitMul_toNat_wide a b h
  | false => exact digitMul_toNat_half a b h

end SpiderMonkey.BigInt
