import Mathlib.Data.Int.NatAbs

/-!
This module contains doubles that are integers, with the arithmetic that rounds to nearest even.
-/

-- The two zeros are one value here, as no operation below tells them apart.
inductive IntegralDouble where
  | finite (value : Int)
  | infinity (negative : Bool)
  | nan
deriving DecidableEq, Repr

namespace IntegralDouble

def roundHalfEven (n shift : Nat) : Nat :=
  let q := n / 2 ^ shift
  let r := n % 2 ^ shift
  if 2 * r < 2 ^ shift then q * 2 ^ shift
  else if 2 ^ shift < 2 * r then (q + 1) * 2 ^ shift
  else (q + q % 2) * 2 ^ shift

def roundNat (n : Nat) : Nat := roundHalfEven n (n.log2 - 52)

def round (n : Int) : IntegralDouble :=
  if 2 ^ 1024 ≤ roundNat n.natAbs then infinity (n < 0)
  else finite (if n < 0 then -(roundNat n.natAbs : Int) else roundNat n.natAbs)

def neg : IntegralDouble → IntegralDouble
  | finite n => finite (-n)
  | infinity negative => infinity !negative
  | nan => nan

def add : IntegralDouble → IntegralDouble → IntegralDouble
  | finite a, finite b => round (a + b)
  | finite _, infinity negative => infinity negative
  | infinity negative, finite _ => infinity negative
  | infinity a, infinity b => if a = b then infinity a else nan
  | _, _ => nan

def sub (a b : IntegralDouble) : IntegralDouble := a.add b.neg

def mul : IntegralDouble → IntegralDouble → IntegralDouble
  | finite a, finite b => round (a * b)
  | finite a, infinity negative => if a = 0 then nan else infinity (negative ^^ (a < 0))
  | infinity negative, finite b => if b = 0 then nan else infinity (negative ^^ (b < 0))
  | infinity a, infinity b => infinity (a ^^ b)
  | _, _ => nan

def toInt32 : IntegralDouble → Int32
  | finite n => Int32.ofInt n
  | _ => 0

theorem roundNat_of_le (h : n ≤ 2 ^ 53) : roundNat n = n := by
  unfold roundNat
  rcases Nat.lt_or_eq_of_le h with hlt | rfl
  . have hlog : n.log2 - 52 = 0 := by
      rcases Nat.eq_zero_or_pos n with rfl | hpos
      . rfl
      . have := (Nat.log2_lt (by omega)).mpr hlt
        omega
    rw [hlog]
    unfold roundHalfEven
    simp only [Nat.pow_zero, Nat.div_one, Nat.mod_one, Nat.mul_zero, Nat.zero_lt_one,
      if_true, Nat.mul_one]
  . decide

theorem round_of_le (h : n.natAbs ≤ 2 ^ 53) : round n = finite n := by
  unfold round
  rw [roundNat_of_le h, if_neg]
  . split
    . rw [Int.ofNat_natAbs_of_nonpos (by omega), Int.neg_neg]
    . rw [Int.natAbs_of_nonneg (by omega)]
  . have : (2 : Nat) ^ 53 < 2 ^ 1024 := Nat.pow_lt_pow_right (by decide) (by decide)
    omega

-- Above `2^53` the arithmetic is inexact, but it does not lead back below.
inductive IsLarge : IntegralDouble → Prop where
  | finite {n : Int} : 2 ^ 53 ≤ n → IsLarge (.finite n)
  | infinity : IsLarge (.infinity false)

theorem le_roundNat (h : 2 ^ 53 ≤ n) : 2 ^ 53 ≤ roundNat n := by
  have hn : n ≠ 0 := by omega
  have hlog : 53 ≤ n.log2 := (Nat.le_log2 hn).mpr h
  have hdiv : 2 ^ 52 ≤ n / 2 ^ (n.log2 - 52) := by
    rw [Nat.le_div_iff_mul_le (Nat.two_pow_pos _), ← Nat.pow_add, Nat.add_sub_cancel' (by omega)]
    exact Nat.log2_self_le hn
  have hpow : 2 ^ 1 ≤ 2 ^ (n.log2 - 52) := Nat.pow_le_pow_right (by decide) (by omega)
  have hle : 2 ^ 53 ≤ n / 2 ^ (n.log2 - 52) * 2 ^ (n.log2 - 52) := by
    calc 2 ^ 53 = 2 ^ 52 * 2 ^ 1 := by decide
      _ ≤ _ := Nat.mul_le_mul hdiv hpow
  unfold roundNat roundHalfEven
  simp only
  split
  . exact hle
  split
  . exact Nat.le_trans hle (Nat.mul_le_mul_right _ (Nat.le_succ _))
  . exact Nat.le_trans hle (Nat.mul_le_mul_right _ (Nat.le_add_right _ _))

theorem round_isLarge (h : 2 ^ 53 ≤ n) : (round n).IsLarge := by
  have hpos : ¬n < 0 := by omega
  have hround : 2 ^ 53 ≤ roundNat n.natAbs := le_roundNat (by omega)
  rw [round, decide_eq_false hpos, if_neg hpos]
  split
  . exact .infinity
  . exact .finite (by omega)

theorem add_isLarge {d : IntegralDouble} (h : d.IsLarge) (hb : 0 ≤ b) : (d.add (finite b)).IsLarge := by
  cases h with
  | finite h =>
    rw [add]
    exact round_isLarge (by omega)
  | infinity => exact .infinity

theorem mul_isLarge {d : IntegralDouble} (h : d.IsLarge) (hb : 1 ≤ b) : (d.mul (finite b)).IsLarge := by
  cases h with
  | @finite n h =>
    rw [mul]
    apply round_isLarge
    calc 2 ^ 53 ≤ n := h
      _ = n * 1 := (Int.mul_one n).symm
      _ ≤ n * b := Int.mul_le_mul_of_nonneg_left hb (by omega)
  | infinity =>
    rw [mul, if_neg (by omega), decide_eq_false (by omega)]
    exact .infinity

end IntegralDouble
