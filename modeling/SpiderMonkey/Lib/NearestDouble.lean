import Mathlib.Algebra.Order.Field.Power
import Mathlib.Tactic.Linarith
import Mathlib.Tactic.Positivity
import Mathlib.Tactic.Ring
import SpiderMonkey.Lib.IntegralDouble

/-!
This module contains that rounding an integer gives the nearest double, and of two that are as near the even one.
-/

namespace IntegralDouble

open Int

def IsDouble (q : Rat) : Prop :=
  ∃ m e : Int, q = m * (2 : Rat) ^ e ∧ m.natAbs < 2 ^ 53 ∧ -1074 ≤ e ∧ e ≤ 971

structure IsNearest (n : Nat) (v : Rat) : Prop where
  isDouble : IsDouble v
  le : ∀ u, IsDouble u → |n - v| ≤ |n - u|
  even : ∀ u, IsDouble u → u ≠ v → |n - v| = |n - u|
    → ∃ m e : Int, v = m * (2 : Rat) ^ e ∧ 2 ^ 52 ≤ m.natAbs ∧ m.natAbs < 2 ^ 53 ∧ 2 ∣ m

-- Integers from half way beyond the greatest double on are rounded to infinity.
inductive IsRounded (n : Nat) : IntegralDouble → Prop where
  | finite {v : Int} : n < 2 ^ 1024 - 2 ^ 970 → IsNearest n v → IsRounded n (.finite v)
  | infinity : 2 ^ 1024 - 2 ^ 970 ≤ n → IsRounded n (.infinity false)

section

variable {n s : Nat}

def nearestMultiple (n s : Nat) : Nat :=
  let q := n / 2 ^ s
  let r := n % 2 ^ s
  if 2 * r < 2 ^ s then q
  else if 2 ^ s < 2 * r then q + 1
  else q + q % 2

theorem roundHalfEven_eq (n s : Nat) : roundHalfEven n s = nearestMultiple n s * 2 ^ s := by
  unfold roundHalfEven nearestMultiple
  dsimp only
  split
  . rfl
  . split <;> rfl

theorem nearestMultiple_cases (n s : Nat)
    : (nearestMultiple n s = n / 2 ^ s ∧ 2 * (n % 2 ^ s) ≤ 2 ^ s)
      ∨ (nearestMultiple n s = n / 2 ^ s + 1 ∧ 2 ^ s ≤ 2 * (n % 2 ^ s)) := by
  unfold nearestMultiple
  dsimp only
  split
  . exact .inl ⟨rfl, by omega⟩
  split
  . exact .inr ⟨rfl, by omega⟩
  rcases Nat.mod_two_eq_zero_or_one (n / 2 ^ s) with heven | hodd
  . exact .inl ⟨by omega, by omega⟩
  . exact .inr ⟨by omega, by omega⟩

theorem nearestMultiple_even (htie : 2 * (n % 2 ^ s) = 2 ^ s) : nearestMultiple n s % 2 = 0 := by
  unfold nearestMultiple
  dsimp only
  rw [if_neg (by omega), if_neg (by omega)]
  omega

theorem multiple_cases (t q : Int) (hd : 0 < d)
    : t * d + d ≤ q * d ∨ t = q ∨ t = q + 1 ∨ q * d + 2 * d ≤ t * d := by
  rcases lt_trichotomy t q with hlt | heq | hgt
  . have hle := mul_le_mul_of_nonneg_right (show t + 1 ≤ q from hlt) (le_of_lt hd)
    rw [add_mul, one_mul] at hle
    exact .inl hle
  . exact .inr (.inl heq)
  rcases lt_or_eq_of_le (show q + 1 ≤ t from hgt) with hlt | heq
  . have hle := mul_le_mul_of_nonneg_right (show q + 2 ≤ t by omega) (le_of_lt hd)
    rw [add_mul] at hle
    exact .inr (.inr (.inr hle))
  . exact .inr (.inr (.inl heq.symm))

theorem nearestMultiple_le (n s : Nat) (t : Int)
    : ((n : Int) - nearestMultiple n s * 2 ^ s).natAbs ≤ ((n : Int) - t * 2 ^ s).natAbs ∧ (t ≠ nearestMultiple n s
        → ((n : Int) - nearestMultiple n s * 2 ^ s).natAbs = ((n : Int) - t * 2 ^ s).natAbs
        → nearestMultiple n s % 2 = 0) := by
  obtain ⟨d, hd⟩ : ∃ d : Int, d = 2 ^ s := ⟨_, rfl⟩
  have hpos : 0 < d := hd ▸ Int.pow_pos (by decide)
  have hcast : ((2 ^ s : Nat) : Int) = d := by rw [hd]; norm_cast
  have hn : (n : Int) = (n / 2 ^ s : Nat) * d + (n % 2 ^ s : Nat) := by
    rw [← hcast]
    exact_mod_cast (Nat.div_add_mod' n (2 ^ s)).symm
  have hlt : ((n % 2 ^ s : Nat) : Int) < d := by
    rw [← hcast]
    exact_mod_cast Nat.mod_lt n (Nat.two_pow_pos s)
  have htie : 2 * ((n % 2 ^ s : Nat) : Int) = d → nearestMultiple n s % 2 = 0 := by
    intro htie
    apply nearestMultiple_even
    rw [← hcast] at htie
    exact_mod_cast htie
  rw [← hd]
  rcases nearestMultiple_cases n s with ⟨hm, hr⟩ | ⟨hm, hr⟩
  . have hr : 2 * ((n % 2 ^ s : Nat) : Int) ≤ d := by
      rw [← hcast]
      exact_mod_cast hr
    rw [hm] at htie ⊢
    rcases multiple_cases t (n / 2 ^ s : Nat) hpos with ht | rfl | rfl | ht
    . exact ⟨by omega, fun _ heq => htie (by omega)⟩
    . exact ⟨Nat.le_refl _, fun hne => absurd rfl hne⟩
    . rw [add_mul, one_mul]
      exact ⟨by omega, fun _ heq => htie (by omega)⟩
    . exact ⟨by omega, fun _ heq => htie (by omega)⟩
  have hr : d ≤ 2 * ((n % 2 ^ s : Nat) : Int) := by
    rw [← hcast]
    exact_mod_cast hr
  have hm' : (nearestMultiple n s : Int) * d = (n / 2 ^ s : Nat) * d + d := by
    rw [hm, Nat.cast_add, Nat.cast_one, add_mul, one_mul]
  rw [hm']
  rcases multiple_cases t (n / 2 ^ s : Nat) hpos with ht | rfl | rfl | ht
  . exact ⟨by omega, fun _ heq => htie (by omega)⟩
  . exact ⟨by omega, fun _ heq => htie (by omega)⟩
  . exact ⟨by rw [add_mul, one_mul], fun hne => absurd (by rw [hm]; rfl) hne⟩
  . exact ⟨by omega, fun _ heq => htie (by omega)⟩

theorem quotient_bounds (h : 2 ^ 53 ≤ n)
    : n.log2 = 52 + (n.log2 - 52) ∧ 1 ≤ n.log2 - 52 ∧ 2 ^ 52 ≤ n / 2 ^ (n.log2 - 52) ∧ n / 2 ^ (n.log2 - 52) < 2 ^ 53 := by
  have hn : n ≠ 0 := by omega
  have hlog : 53 ≤ n.log2 := (Nat.le_log2 hn).mpr h
  have hsum : 52 + (n.log2 - 52) = n.log2 := Nat.add_sub_cancel' (by omega)
  refine ⟨hsum.symm, by omega, ?_, ?_⟩
  . rw [Nat.le_div_iff_mul_le (Nat.two_pow_pos _), ← Nat.pow_add, hsum]
    exact Nat.log2_self_le hn
  . rw [Nat.div_lt_iff_lt_mul (Nat.two_pow_pos _), ← Nat.pow_add, show 53 + (n.log2 - 52) = n.log2 + 1 by omega]
    exact Nat.lt_log2_self

theorem nearestMultiple_bounds (h : 2 ^ 53 ≤ n)
    : 2 ^ 52 ≤ nearestMultiple n (n.log2 - 52) ∧ nearestMultiple n (n.log2 - 52) ≤ 2 ^ 53 := by
  obtain ⟨_, _, hge, hlt⟩ := quotient_bounds h
  rcases nearestMultiple_cases n (n.log2 - 52) with ⟨hm, _⟩ | ⟨hm, _⟩ <;> omega

theorem roundNat_eq (n : Nat) : roundNat n = nearestMultiple n (n.log2 - 52) * 2 ^ (n.log2 - 52) := roundHalfEven_eq n _

theorem roundNat_lt_iff (h : 2 ^ 53 ≤ n) (t : Nat) : roundNat n < 2 ^ (54 + t) ↔ n < 2 ^ (54 + t) - 2 ^ t := by
  obtain ⟨_, _, hge, hlt⟩ := quotient_bounds h
  obtain ⟨hmge, hmle⟩ := nearestMultiple_bounds h
  rw [roundNat_eq, Nat.pow_add]
  generalize n.log2 - 52 = s at hge hlt hmge hmle ⊢
  have hn := Nat.div_add_mod' n (2 ^ s)
  have hr := Nat.mod_lt n (Nat.two_pow_pos s)
  have hpos := Nat.two_pow_pos t
  rcases Nat.lt_trichotomy s (t + 1) with hs | rfl | hs
  . have hpow : 2 ^ s ≤ 2 ^ t := Nat.pow_le_pow_right (by decide) (by omega)
    have hm : nearestMultiple n s * 2 ^ s ≤ 2 ^ 53 * 2 ^ t := Nat.mul_le_mul hmle hpow
    have hq : (n / 2 ^ s + 1) * 2 ^ s ≤ 2 ^ 53 * 2 ^ t := Nat.mul_le_mul hlt hpow
    rw [Nat.succ_mul] at hq
    constructor <;> intro <;> omega
  . have htie : 2 * (n % 2 ^ (t + 1)) = 2 ^ (t + 1) → nearestMultiple n (t + 1) % 2 = 0 := nearestMultiple_even
    have hcases := nearestMultiple_cases n (t + 1)
    generalize nearestMultiple n (t + 1) = m at hmge hmle htie hcases ⊢
    rw [show 2 ^ (t + 1) = 2 * 2 ^ t from Nat.pow_succ'] at hn hr hlt htie hcases ⊢
    generalize n / (2 * 2 ^ t) = q at hn hlt hcases
    generalize n % (2 * 2 ^ t) = r at hn hr htie hcases
    have hscaled : m * (2 * 2 ^ t) < 2 ^ 54 * 2 ^ t ↔ m < 2 ^ 53 := by
      rw [show 2 ^ 54 * 2 ^ t = 2 ^ 53 * (2 * 2 ^ t) by omega]
      exact Nat.mul_lt_mul_right (Nat.mul_pos (by decide) hpos)
    rw [hscaled]
    by_cases hlast : q = 2 ^ 53 - 1
    . subst hlast
      omega
    have hq : (q + 2) * (2 * 2 ^ t) ≤ 2 ^ 53 * (2 * 2 ^ t) := Nat.mul_le_mul_right _ (by omega)
    rw [Nat.add_mul] at hq
    constructor <;> intro <;> omega
  . have hpow : 2 * (2 * 2 ^ t) ≤ 2 ^ s := by
      rw [← Nat.pow_succ', ← Nat.pow_succ']
      exact Nat.pow_le_pow_right (by decide) hs
    have hm : 2 ^ 52 * (2 * (2 * 2 ^ t)) ≤ nearestMultiple n s * 2 ^ s := Nat.mul_le_mul hmge hpow
    have hq : 2 ^ 52 * (2 * (2 * 2 ^ t)) ≤ n / 2 ^ s * 2 ^ s := Nat.mul_le_mul hge hpow
    constructor <;> intro <;> omega

theorem abs_sub_intCast (n : Nat) (z : Int) : |(n : Rat) - z| = (((n : Int) - z).natAbs : Rat) := by
  rw [Nat.cast_natAbs]
  push_cast
  rfl

theorem nearest_of_double (h : 2 ^ 53 ≤ n) (hu : IsDouble u)
    : |(n : Rat) - roundNat n| ≤ |(n : Rat) - u|
      ∧ (u ≠ roundNat n → |(n : Rat) - roundNat n| = |(n : Rat) - u| → nearestMultiple n (n.log2 - 52) % 2 = 0) := by
  obtain ⟨hlog, hpos, _, _⟩ := quotient_bounds h
  have hself := Nat.log2_self_le (show n ≠ 0 by omega)
  rw [hlog] at hself
  rw [roundNat_eq]
  generalize n.log2 - 52 = s at hpos hself ⊢
  have hround : ((nearestMultiple n s * 2 ^ s : Nat) : Rat) = ((nearestMultiple n s * 2 ^ s : Int) : Rat) := by
    push_cast
    rfl
  rw [hround, abs_sub_intCast]
  obtain ⟨m, e, rfl, hm, _, _⟩ := hu
  by_cases he : (s : Int) ≤ e
  . obtain ⟨k, rfl⟩ : ∃ k : Nat, e = s + k := ⟨(e - s).toNat, by omega⟩
    have hmultiple : (m : Rat) * 2 ^ ((s : Int) + k) = ((m * 2 ^ k * 2 ^ s : Int) : Rat) := by
      rw [← Nat.cast_add, zpow_natCast, pow_add]
      push_cast
      ring
    obtain ⟨hle, heven⟩ := nearestMultiple_le n s (m * 2 ^ k)
    rw [hmultiple, abs_sub_intCast]
    refine ⟨by exact_mod_cast hle, fun hne heq => heven ?_ (by exact_mod_cast heq)⟩
    rintro hsame
    rw [hsame] at hne
    exact hne rfl
  have hbelow : (m : Rat) * 2 ^ e < ((2 ^ 52 * 2 ^ s : Int) : Rat) := by
    have hm : (m : Rat) < 2 ^ 53 := by exact_mod_cast show m < 2 ^ 53 by omega
    calc (m : Rat) * 2 ^ e < 2 ^ 53 * 2 ^ e := mul_lt_mul_of_pos_right hm (zpow_pos (by norm_num) _)
      _ ≤ 2 ^ 53 * 2 ^ ((s : Int) - 1) := by
        refine mul_le_mul_of_nonneg_left (zpow_le_zpow_right₀ ?_ ?_) ?_
        . norm_num
        . omega
        . norm_num
      _ = ((2 ^ 52 * 2 ^ s : Int) : Rat) := by
        rw [zpow_sub_one₀ two_ne_zero, zpow_natCast]
        push_cast
        ring
  obtain ⟨hle, _⟩ := nearestMultiple_le n s (2 ^ 52)
  have hlt : |(n : Rat) - ((2 ^ 52 * 2 ^ s : Int) : Rat)| < |(n : Rat) - m * 2 ^ e| := by
    have hge : ((2 ^ 52 * 2 ^ s : Int) : Rat) ≤ n := by
      rw [pow_add] at hself
      exact_mod_cast hself
    rw [abs_of_nonneg (by linarith), abs_of_nonneg (by linarith)]
    linarith
  rw [abs_sub_intCast] at hlt
  have hlt' := lt_of_le_of_lt (Nat.cast_le.mpr hle) hlt
  exact ⟨le_of_lt hlt', fun _ heq => absurd heq (ne_of_lt hlt')⟩

theorem isNearest_self (h : n ≤ 2 ^ 53) : IsNearest n (n : Int) where
  isDouble := by
    rcases Nat.lt_or_eq_of_le h with hlt | rfl
    . exact ⟨n, 0, by rw [zpow_zero, mul_one], hlt, by decide, by decide⟩
    . exact ⟨2 ^ 52, 1, by norm_num, by decide, by decide, by decide⟩
  le u _ := by
    rw [cast_natCast, sub_self, abs_zero]
    exact abs_nonneg _
  even u _ hne heq := by
    rw [cast_natCast] at hne heq
    rw [sub_self, abs_zero, eq_comm, abs_eq_zero, sub_eq_zero] at heq
    exact absurd heq.symm hne

theorem isNearest_roundNat (h : 2 ^ 53 ≤ n) (hlt : roundNat n < 2 ^ 1024) : IsNearest n (roundNat n : Int) := by
  obtain ⟨_, hpos, _, _⟩ := quotient_bounds h
  obtain ⟨hmge, hmle⟩ := nearestMultiple_bounds h
  rw [cast_natCast]
  obtain ⟨m, e, hv, hge, hm, he, heven⟩ : ∃ (m : Nat) (e : Nat), roundNat n = m * 2 ^ e ∧ 2 ^ 52 ≤ m ∧ m < 2 ^ 53 ∧ e ≤ 971
      ∧ (nearestMultiple n (n.log2 - 52) % 2 = 0 → 2 ∣ m) := by
    have hexponent {m e : Nat} (hv : roundNat n = m * 2 ^ e) (hge : 2 ^ 52 ≤ m) : e ≤ 971 := by
      by_contra hgt
      have hle : 2 ^ 1024 ≤ roundNat n := by
        calc 2 ^ 1024 ≤ 2 ^ (52 + e) := Nat.pow_le_pow_right (by decide) (by omega)
          _ = 2 ^ 52 * 2 ^ e := Nat.pow_add 2 52 e
          _ ≤ m * 2 ^ e := Nat.mul_le_mul_right _ hge
          _ = roundNat n := hv.symm
      exact Nat.not_le.mpr hlt hle
    rcases Nat.lt_or_eq_of_le hmle with hlt' | heq
    . exact ⟨_, _, roundNat_eq n, hmge, hlt', hexponent (roundNat_eq n) hmge, Nat.dvd_of_mod_eq_zero⟩
    have hv : roundNat n = 2 ^ 52 * 2 ^ (n.log2 - 52 + 1) := by
      rw [roundNat_eq, heq, ← Nat.pow_add, ← Nat.pow_add]
      congr 1
      omega
    exact ⟨2 ^ 52, _, hv, Nat.le_refl _, by decide, hexponent hv (Nat.le_refl _), fun _ => by decide⟩
  have hcast : (roundNat n : Rat) = (m : Int) * (2 : Rat) ^ (e : Int) := by
    rw [hv, zpow_natCast]
    push_cast
    rfl
  refine ⟨⟨m, e, hcast, hm, by omega, by omega⟩, fun u hu => (nearest_of_double h hu).1, fun u hu hne heq => ?_⟩
  exact ⟨m, e, hcast, hge, hm, natCast_dvd_natCast.mpr (heven ((nearest_of_double h hu).2 hne heq))⟩

theorem lt_of_le_half (h : n ≤ 2 ^ 53) (hm : 54 + t = m) : n < 2 ^ m - 2 ^ t ∧ n < 2 ^ m := by
  have hpos := Nat.two_pow_pos t
  rw [← hm, Nat.pow_add]
  omega

theorem roundNat_lt_top_iff (h : 2 ^ 53 ≤ n) (hm : 54 + t = m) : roundNat n < 2 ^ m ↔ n < 2 ^ m - 2 ^ t := by
  rw [← hm]
  exact roundNat_lt_iff h t

theorem round_natCast (n : Nat)
    : round n = if 2 ^ 1024 ≤ roundNat n then infinity false else finite (roundNat n) := by
  have hpos : ¬(n : Int) < 0 := by omega
  rw [round, natAbs_natCast, if_neg hpos, decide_eq_false hpos]

theorem roundHalfEven_of_dvd (h : 2 ^ s ∣ n) : roundHalfEven n s = n := by
  have hr : n % 2 ^ s = 0 := Nat.mod_eq_zero_of_dvd h
  rw [roundHalfEven, hr, if_pos (Nat.mul_zero 2 ▸ Nat.two_pow_pos s), Nat.div_mul_cancel h]

theorem roundNat_mul_two_pow (hm : m ≤ 2 ^ 53) (s : Nat) : roundNat (m * 2 ^ s) = m * 2 ^ s := by
  by_cases hle : m * 2 ^ s ≤ 2 ^ 53
  . exact roundNat_of_le hle
  apply roundHalfEven_of_dvd
  have hne : m * 2 ^ s ≠ 0 := by omega
  rcases Nat.lt_or_eq_of_le hm with hlt | rfl
  . have hlog : (m * 2 ^ s).log2 < 53 + s := by
      rw [Nat.log2_lt hne, Nat.pow_add]
      exact Nat.mul_lt_mul_of_pos_right hlt (Nat.two_pow_pos s)
    exact (Nat.pow_dvd_pow 2 (by omega)).trans (Nat.dvd_mul_left ..)
  . rw [← Nat.pow_add, Nat.log2_two_pow]
    exact Nat.pow_dvd_pow 2 (by omega)

theorem round_mul_two_pow (hm : m ≤ 2 ^ 53) (s : Nat)
    : round (m * 2 ^ s : Nat) = if 2 ^ 1024 ≤ m * 2 ^ s then infinity false else finite (m * 2 ^ s : Nat) := by
  rw [round_natCast, roundNat_mul_two_pow hm]

theorem round_two_pow (s : Nat) : round (2 ^ s : Nat) = if 2 ^ 1024 ≤ 2 ^ s then infinity false else finite (2 ^ s : Nat) := by
  rw [round_natCast, ← Nat.one_mul (2 ^ s), roundNat_mul_two_pow (by decide)]

theorem round_two_pow_mul_two (s : Nat) : (round (2 ^ s : Nat)).mul (finite 2) = round (2 ^ (s + 1) : Nat) := by
  rw [round_two_pow]
  by_cases h : 2 ^ 1024 ≤ 2 ^ s
  . have hsucc : 2 ^ 1024 ≤ 2 ^ (s + 1) := h.trans (Nat.pow_le_pow_right (by decide) (Nat.le_succ s))
    rw [if_pos h, round_two_pow, if_pos hsucc]
    rfl
  . rw [if_neg h, Nat.pow_succ]
    rfl

theorem finite_mul_round_two_pow {m : Nat} (hm : m ≤ 2 ^ 53) (hpos : 0 < m) (s : Nat)
    : (finite m).mul (round (2 ^ s : Nat)) = round (m * 2 ^ s : Nat) := by
  rw [round_two_pow]
  by_cases h : 2 ^ 1024 ≤ 2 ^ s
  . have hmul : 2 ^ 1024 ≤ m * 2 ^ s := h.trans (Nat.le_mul_of_pos_left _ hpos)
    have hsign : ¬(m : Int) < 0 := by omega
    rw [if_pos h, round_mul_two_pow hm, if_pos hmul, mul, if_neg (by omega), decide_eq_false hsign]
    rfl
  . rw [if_neg h, mul, natCast_mul]

theorem round_of_bits {q b t r : Nat} (hge : 2 ^ 52 ≤ q) (hlt : q < 2 ^ 53) (hb : b < 2) (hr : r < 2 ^ t)
    : round ((q * 2 + b) * 2 ^ t + r : Nat)
        = ((finite q).add (finite (b &&& (q % 2 ||| if r = 0 then 0 else 1) : Nat))).mul (round (2 ^ (t + 1) : Nat)) := by
  obtain ⟨n, hn⟩ : ∃ n, n = (q * 2 + b) * 2 ^ t + r := ⟨_, rfl⟩
  rw [← hn]
  have hsplit : n = q * 2 ^ (t + 1) + (b * 2 ^ t + r) := by
    rw [hn, Nat.pow_succ]
    ring
  have hlow : b * 2 ^ t + r < 2 ^ (t + 1) := by
    rw [Nat.pow_succ]
    calc b * 2 ^ t + r < b * 2 ^ t + 2 ^ t := Nat.add_lt_add_left hr _
      _ = (b + 1) * 2 ^ t := (Nat.succ_mul ..).symm
      _ ≤ 2 * 2 ^ t := Nat.mul_le_mul_right _ hb
      _ = 2 ^ t * 2 := Nat.mul_comm ..
  have hdiv : n / 2 ^ (t + 1) = q := by
    rw [hsplit, Nat.add_comm, Nat.add_mul_div_right _ _ (Nat.two_pow_pos _), Nat.div_eq_of_lt hlow, Nat.zero_add]
  have hmod : n % 2 ^ (t + 1) = b * 2 ^ t + r := by rw [hsplit, Nat.mul_add_mod_of_lt hlow]
  have hne : n ≠ 0 := by
    intro hzero
    rw [hzero, Nat.zero_div] at hdiv
    omega
  have hlog : n.log2 = 52 + (t + 1) := by
    rw [Nat.log2_eq_iff hne]
    constructor
    . rw [Nat.pow_add]
      exact (Nat.le_div_iff_mul_le (Nat.two_pow_pos _)).mp (hdiv ▸ hge)
    . rw [Nat.add_right_comm, Nat.pow_add]
      exact (Nat.div_lt_iff_lt_mul (Nat.two_pow_pos _)).mp (hdiv ▸ hlt)
  have hmultiple : nearestMultiple n (t + 1) = q + (b &&& (q % 2 ||| if r = 0 then 0 else 1)) := by
    unfold nearestMultiple
    rw [hdiv, hmod, Nat.pow_succ]
    dsimp only
    obtain rfl | rfl : b = 0 ∨ b = 1 := by omega
    . rw [if_pos (by omega), Nat.zero_and, Nat.add_zero]
    rcases Nat.eq_zero_or_pos r with rfl | hpos
    . rw [if_neg (by omega), if_neg (by omega), if_pos rfl, Nat.or_zero, Nat.one_and_eq_mod_two, Nat.mod_mod]
    have hodd : 1 &&& (q % 2 ||| 1) = 1 := by
      rcases Nat.mod_two_eq_zero_or_one q with h | h <;> rw [h] <;> rfl
    rw [if_neg (by omega), if_pos (by omega), if_neg (by omega), hodd]
  have hle : q + (b &&& (q % 2 ||| if r = 0 then 0 else 1)) ≤ 2 ^ 53 := by
    have hand : (b &&& (q % 2 ||| if r = 0 then 0 else 1)) ≤ b := Nat.and_le_left
    omega
  have hadd : (finite q).add (finite (b &&& (q % 2 ||| if r = 0 then 0 else 1) : Nat))
      = finite (q + (b &&& (q % 2 ||| if r = 0 then 0 else 1)) : Nat) := by
    rw [add, round_of_le (by omega)]
    norm_cast
  rw [hadd, finite_mul_round_two_pow hle (by omega), round_mul_two_pow hle, round_natCast, roundNat_eq, hlog,
    Nat.add_sub_cancel_left, hmultiple]

theorem round_isRounded (n : Nat) : IsRounded n (round n) := by
  have htop : 54 + 970 = 1024 := rfl
  rw [round_natCast]
  by_cases h : 2 ^ 53 ≤ n
  . by_cases hlt : roundNat n < 2 ^ 1024
    . rw [if_neg (Nat.not_le.mpr hlt)]
      exact .finite ((roundNat_lt_top_iff h htop).mp hlt) (isNearest_roundNat h hlt)
    . rw [if_pos (Nat.not_lt.mp hlt)]
      exact .infinity (Nat.not_lt.mp (mt (roundNat_lt_top_iff h htop).mpr hlt))
  . have hle : n ≤ 2 ^ 53 := Nat.le_of_lt (Nat.not_le.mp h)
    obtain ⟨hbelow, hlt⟩ := lt_of_le_half hle htop
    rw [roundNat_of_le hle, if_neg (Nat.not_le.mpr hlt)]
    exact .finite hbelow (isNearest_self hle)

end

end IntegralDouble
