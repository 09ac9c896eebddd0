import Mathlib.Algebra.Order.Field.Power
import Mathlib.Data.Rat.Floor

/-!
This module contains the numbers that 64-bit patterns of the binary interchange format denote, and their integral parts.
-/

namespace Binary64

def negative (bits : BitVec 64) : Bool := bits.msb
def biasedExponent (bits : BitVec 64) : Nat := bits.toNat / 2 ^ 52 % 2 ^ 11
def fraction (bits : BitVec 64) : Nat := bits.toNat % 2 ^ 52

def magnitude (bits : BitVec 64) : Option Rat :=
  if biasedExponent bits = 2 ^ 11 - 1 then none
  else if biasedExponent bits = 0 then some (fraction bits * (2 : Rat) ^ (-1074 : Int))
  else some ((2 ^ 52 + fraction bits : Nat) * (2 : Rat) ^ ((biasedExponent bits : Int) - 1075))

def value (bits : BitVec 64) : Option Rat :=
  (magnitude bits).map fun q => if negative bits then -q else q

def truncate (q : Rat) : Int := if 0 ≤ q then ⌊q⌋ else ⌈q⌉

def truncated (bits : BitVec 64) : Int := ((value bits).map truncate).getD 0

def scale (m e : Nat) : Nat := if e > 52 then m * 2 ^ (e - 52) else m / 2 ^ (52 - e)

theorem truncate_neg (q : Rat) : truncate (-q) = -truncate q := by
  unfold truncate
  rcases lt_trichotomy q 0 with hneg | rfl | hpos
  . rw [if_pos (by linarith), if_neg (by linarith), Int.floor_neg]
  . rfl
  . rw [if_neg (by linarith), if_pos (by linarith), Int.ceil_neg]

theorem truncated_eq {bits : BitVec 64} (hq : magnitude bits = some q)
    : truncated bits = if negative bits then -truncate q else truncate q := by
  unfold truncated value
  rw [hq]
  split
  . exact truncate_neg q
  . rfl

theorem truncated_of_none {bits : BitVec 64} (hnone : magnitude bits = none) : truncated bits = 0 := by
  unfold truncated value
  rw [hnone]
  rfl

theorem truncate_of_lt_one (hq : 0 ≤ q) (hlt : q < 1) : truncate q = 0 := by
  unfold truncate
  rw [if_pos hq]
  exact Int.floor_eq_zero_iff.mpr ⟨hq, hlt⟩

theorem truncate_scale (m e : Nat) : truncate (m * (2 : Rat) ^ ((e : Int) - 52)) = scale m e := by
  unfold truncate scale
  rw [if_pos (by positivity)]
  split
  next h =>
    have hexp : (e : Int) - 52 = (e - 52 : Nat) := by omega
    have hcast : (m : Rat) * 2 ^ (e - 52) = ((m * 2 ^ (e - 52) : Nat) : Rat) := by push_cast; rfl
    rw [hexp, zpow_natCast, hcast, Int.floor_natCast]
  next h =>
    have hexp : (e : Int) - 52 = -(52 - e : Nat) := by omega
    have hcast : (m : Rat) * ((2 : Rat) ^ (52 - e))⁻¹ = ((m : Int) : Rat) / ((2 ^ (52 - e) : Nat) : Rat) := by
      push_cast
      exact (div_eq_mul_inv _ _).symm
    rw [hexp, zpow_neg, zpow_natCast, hcast, Rat.floor_intCast_div_natCast]
    push_cast
    rfl

theorem scale_add (k f e : Nat) : scale (k * 2 ^ 52 + f) e = k * 2 ^ e + scale f e := by
  unfold scale
  split
  next h =>
    rw [Nat.add_mul, Nat.mul_assoc, ← Nat.pow_add, Nat.add_sub_cancel' (by omega)]
  next h =>
    have hpow : k * 2 ^ 52 = 2 ^ (52 - e) * (k * 2 ^ e) := by
      rw [Nat.mul_left_comm, ← Nat.pow_add, Nat.sub_add_cancel (by omega)]
    rw [hpow, Nat.mul_add_div (Nat.two_pow_pos _)]

theorem scale_lt (hf : f < 2 ^ 52) (e : Nat) : scale f e < 2 ^ e := by
  unfold scale
  split
  next h =>
    calc f * 2 ^ (e - 52) < 2 ^ 52 * 2 ^ (e - 52) := Nat.mul_lt_mul_of_pos_right hf (Nat.two_pow_pos _)
      _ = 2 ^ e := by rw [← Nat.pow_add, Nat.add_sub_cancel' (by omega)]
  next h =>
    rw [Nat.div_lt_iff_lt_mul (Nat.two_pow_pos _), ← Nat.pow_add, Nat.add_sub_cancel' (by omega)]
    exact hf

theorem fraction_lt (bits : BitVec 64) : fraction bits < 2 ^ 52 := Nat.mod_lt _ (by decide)

theorem magnitude_lt_one {bits : BitVec 64} (hlt : biasedExponent bits < 1023) (hq : magnitude bits = some q)
    : 0 ≤ q ∧ q < 1 := by
  have hfraction : (fraction bits : Rat) < 2 ^ 52 := by exact_mod_cast fraction_lt bits
  unfold magnitude at hq
  rw [if_neg (by omega)] at hq
  split at hq
  . obtain rfl := Option.some.inj hq
    refine ⟨by positivity, ?_⟩
    calc (fraction bits : Rat) * 2 ^ (-1074 : Int) < 2 ^ 52 * 2 ^ (-1074 : Int) := by gcongr
      _ ≤ 2 ^ (52 : Int) * 2 ^ (-52 : Int) := by
          gcongr <;> norm_num
      _ = 1 := by norm_num
  obtain rfl := Option.some.inj hq
  refine ⟨by positivity, ?_⟩
  have hexp : (biasedExponent bits : Int) - 1075 ≤ -53 := by omega
  calc ((2 ^ 52 + fraction bits : Nat) : Rat) * 2 ^ ((biasedExponent bits : Int) - 1075)
      < 2 ^ (53 : Int) * 2 ^ ((biasedExponent bits : Int) - 1075) := by
        gcongr
        push_cast
        linarith
    _ ≤ 2 ^ (53 : Int) * 2 ^ (-53 : Int) := by
        gcongr
        norm_num
    _ = 1 := by norm_num

theorem truncated_of_lt {bits : BitVec 64} (hlt : biasedExponent bits < 1023) : truncated bits = 0 := by
  cases hq : magnitude bits with
  | none => exact truncated_of_none hq
  | some q =>
    obtain ⟨hnonneg, hone⟩ := magnitude_lt_one hlt hq
    rw [truncated_eq hq, truncate_of_lt_one hnonneg hone]
    split <;> rfl

theorem magnitude_of_le {bits : BitVec 64} (hle : 1023 ≤ biasedExponent bits) (hfinite : biasedExponent bits ≠ 2047)
    : magnitude bits
        = some ((2 ^ 52 + fraction bits : Nat) * (2 : Rat) ^ (((biasedExponent bits - 1023 : Nat) : Int) - 52)) := by
  unfold magnitude
  rw [if_neg (by omega), if_neg (by omega), show (biasedExponent bits : Int) - 1075
    = ((biasedExponent bits - 1023 : Nat) : Int) - 52 by omega]

theorem truncated_of_le {bits : BitVec 64} (hle : 1023 ≤ biasedExponent bits) (hfinite : biasedExponent bits < 2047)
    : truncated bits = if negative bits then -(scale (2 ^ 52 + fraction bits) (biasedExponent bits - 1023) : Int)
      else scale (2 ^ 52 + fraction bits) (biasedExponent bits - 1023) := by
  rw [truncated_eq (magnitude_of_le hle (Nat.ne_of_lt hfinite)), truncate_scale]

end Binary64
