import Mathlib.Data.Int.NatAbs
import Mathlib.Tactic.Tauto

/-!
This module contains the lexicographic order of decimal numerals, in terms of the numbers.
-/

namespace Decimal

open List

section

variable {α : Type} [LT α] {x y : α} {s t u : List α}

theorem concat_lt_concat_iff (h : s.length = t.length) : s ++ [x] < t ++ [y] ↔ s < t ∨ s = t ∧ x < y := by
  induction s generalizing t with
  | nil =>
    obtain rfl := length_eq_zero_iff.mp h.symm
    rw [nil_append, nil_append, cons_lt_cons_iff]
    have hnot : ¬([] : List α) < [] := not_lt_nil []
    tauto
  | cons a s ih =>
    cases t with
    | nil => exact absurd h (Nat.succ_ne_zero _)
    | cons b t =>
      rw [cons_append, cons_append, cons_lt_cons_iff, cons_lt_cons_iff, ih (Nat.succ.inj h), cons_eq_cons]
      tauto

theorem append_lt_iff (h : s.length = t.length) : s ++ u < t ↔ s < t := by
  induction s generalizing t with
  | nil =>
    obtain rfl := length_eq_zero_iff.mp h.symm
    exact iff_of_false (not_lt_nil _) (not_lt_nil _)
  | cons a s ih =>
    cases t with
    | nil => exact absurd h (Nat.succ_ne_zero _)
    | cons b t => rw [cons_append, cons_lt_cons_iff, cons_lt_cons_iff, ih (Nat.succ.inj h)]

theorem lt_append_iff (h : s.length = t.length) (hu : u ≠ []) : t < s ++ u ↔ t < s ∨ t = s := by
  induction s generalizing t with
  | nil =>
    obtain rfl := length_eq_zero_iff.mp h.symm
    obtain ⟨x, u, rfl⟩ := exists_cons_of_ne_nil hu
    exact iff_of_true (nil_lt_cons x u) (.inr rfl)
  | cons a s ih =>
    cases t with
    | nil => exact absurd h (Nat.succ_ne_zero _)
    | cons b t =>
      rw [cons_append, cons_lt_cons_iff, cons_lt_cons_iff, ih (Nat.succ.inj h), cons_eq_cons]
      tauto

end

def numDigits (n : Nat) : Nat := (Nat.toDigits 10 n).length

theorem numDigits_pos (n : Nat) : 0 < numDigits n := Nat.length_toDigits_pos

theorem numDigits_of_ge (h : 10 ≤ n) : numDigits n = numDigits (n / 10) + 1 := by
  rw [numDigits, Nat.toDigits_of_base_le (by decide) h, length_append]
  rfl

theorem numDigits_of_lt (h : n < 10) : numDigits n = 1 := by
  rw [numDigits, Nat.toDigits_of_lt_base h]
  rfl

theorem lt_of_numDigits (h : 1 = numDigits n) : n < 10 := by
  rcases Nat.lt_or_ge n 10 with hlt | hge
  . exact hlt
  have hpos := numDigits_pos (n / 10)
  rw [numDigits_of_ge hge] at h
  omega

theorem numDigits_eq_iff (hd : 1 < d) : numDigits n = d ↔ 10 ^ (d - 1) ≤ n ∧ n < 10 ^ d := by
  have hle := Nat.length_toDigits_le_iff (n := n) (b := 10) (k := d) (by decide) (by omega)
  have hlt := Nat.length_toDigits_le_iff (n := n) (b := 10) (k := d - 1) (by decide) (by omega)
  rw [← hle, ← Nat.not_lt, ← hlt]
  unfold numDigits
  omega

section

variable {α : Type}

def write (f : Char → α) (n : Nat) : List α := (Nat.toDigits 10 n).map f

theorem length_write (f : Char → α) (n : Nat) : (write f n).length = numDigits n := length_map _

theorem write_of_lt (f : Char → α) (h : n < 10) : write f n = [f (Nat.digitChar n)] := by
  rw [write, Nat.toDigits_of_lt_base h]
  rfl

theorem write_of_ge (f : Char → α) (h : 10 ≤ n)
    : write f n = write f (n / 10) ++ [f (Nat.digitChar (n % 10))] := by
  rw [write, Nat.toDigits_of_base_le (by decide) h, map_append]
  rfl

theorem write_div (f : Char → α) (h : k < numDigits n)
    : ∃ u, write f n = write f (n / 10 ^ k) ++ u ∧ u.length = k := by
  induction k with
  | zero => exact ⟨[], by rw [Nat.pow_zero, Nat.div_one, append_nil], rfl⟩
  | succ k ih =>
    have hle : 10 ^ (k + 1) ≤ n := by
      obtain ⟨hge, _⟩ := (numDigits_eq_iff (n := n) (by omega)).mp rfl
      exact Nat.le_trans (Nat.pow_le_pow_right (by decide) (by omega)) hge
    rw [Nat.pow_succ, Nat.mul_comm] at hle
    obtain ⟨u, hu, hlength⟩ := ih (by omega)
    have hge : 10 ≤ n / 10 ^ k := (Nat.le_div_iff_mul_le (Nat.pow_pos (by decide))).mpr hle
    rw [write_of_ge f hge, Nat.div_div_eq_div_mul, ← Nat.pow_succ] at hu
    exact ⟨_, hu.trans (append_assoc ..), by rw [length_append, hlength, Nat.add_comm]; rfl⟩

theorem exists_leading (f : Char → α) (h : k < numDigits n)
    : ∃ u, write f n = write f (n / 10 ^ k) ++ u ∧ u.length = k ∧ numDigits (n / 10 ^ k) + k = numDigits n := by
  obtain ⟨u, hu, hlength⟩ := write_div f h
  have hnumDigits := congrArg List.length hu
  rw [length_append, length_write, length_write, hlength] at hnumDigits
  exact ⟨u, hu, hlength, hnumDigits.symm⟩

variable [LT α] {f : Char → α} (hf : ∀ d < 10, ∀ e < 10, f (Nat.digitChar d) < f (Nat.digitChar e) ↔ d < e)

include hf in
theorem write_lt_iff (h : numDigits a = numDigits b)
    : (write f a < write f b ↔ a < b) ∧ (write f b < write f a ↔ b < a) := by
  induction a using Nat.strongRecOn generalizing b with
  | ind a ih =>
    have hnot (x y : α) : ([x] < [y]) ↔ x < y := by
      have hnil : ¬([] : List α) < [] := not_lt_nil []
      rw [cons_lt_cons_iff]
      tauto
    rcases Nat.lt_or_ge a 10 with ha | ha
    . have hb : b < 10 := lt_of_numDigits ((numDigits_of_lt ha).symm.trans h)
      rw [write_of_lt f ha, write_of_lt f hb, hnot, hnot]
      exact ⟨hf a ha b hb, hf b hb a ha⟩
    have hb : 10 ≤ b := by
      rcases Nat.lt_or_ge b 10 with hlt | hge
      . exact absurd (lt_of_numDigits (h.trans (numDigits_of_lt hlt)).symm) (Nat.not_lt.mpr ha)
      . exact hge
    rw [numDigits_of_ge ha, numDigits_of_ge hb] at h
    obtain ⟨hlt, hgt⟩ := ih (a / 10) (by omega) (Nat.succ.inj h)
    have hlength : (write f (a / 10)).length = (write f (b / 10)).length := by
      rw [length_write, length_write, Nat.succ.inj h]
    have hinj : write f (a / 10) = write f (b / 10) ↔ a / 10 = b / 10 := by
      refine ⟨fun heq => ?_, fun heq => heq ▸ rfl⟩
      rw [heq] at hlt hgt
      have hboth := hlt.symm.trans hgt
      omega
    have hinj' : write f (b / 10) = write f (a / 10) ↔ b / 10 = a / 10 := by rw [eq_comm, hinj, eq_comm]
    have hlast := hf (a % 10) (Nat.mod_lt _ (by decide)) (b % 10) (Nat.mod_lt _ (by decide))
    have hlast' := hf (b % 10) (Nat.mod_lt _ (by decide)) (a % 10) (Nat.mod_lt _ (by decide))
    rw [write_of_ge f ha, write_of_ge f hb, concat_lt_concat_iff hlength, concat_lt_concat_iff hlength.symm, hlt, hgt, hinj,
      hinj', hlast, hlast']
    exact ⟨by omega, by omega⟩

include hf in
theorem write_inj (h : numDigits a = numDigits b) : write f a = write f b ↔ a = b := by
  obtain ⟨hlt, hgt⟩ := write_lt_iff hf h
  refine ⟨fun heq => ?_, fun heq => heq ▸ rfl⟩
  rw [heq] at hlt hgt
  have hboth := hlt.symm.trans hgt
  omega

include hf in
theorem write_le_iff (a b : Nat)
    : write f a ≤ write f b ↔ if numDigits a = numDigits b then a ≤ b
        else if numDigits a > numDigits b then a < b * 10 ^ (numDigits a - numDigits b)
        else a * 10 ^ (numDigits b - numDigits a) ≤ b := by
  rw [← List.not_lt]
  split
  next heq => rw [(write_lt_iff hf heq).2, Nat.not_lt]
  next hne =>
    split
    next hgt =>
      obtain ⟨u, hu, hlength, hdigits⟩ := exists_leading f (show numDigits a - numDigits b < numDigits a by
        have hpos := numDigits_pos b
        omega)
      have heq : numDigits (a / 10 ^ (numDigits a - numDigits b)) = numDigits b := by omega
      have hne : u ≠ [] := ne_nil_of_length_pos (by omega)
      rw [hu, lt_append_iff (by rw [length_write, length_write, heq]) hne, ← Nat.div_lt_iff_lt_mul (Nat.pow_pos (by decide)),
        (write_lt_iff hf heq).2, eq_comm, write_inj hf heq]
      omega
    next hle =>
      obtain ⟨u, hu, hlength, hdigits⟩ := exists_leading f (show numDigits b - numDigits a < numDigits b by
        have hpos := numDigits_pos a
        omega)
      have heq : numDigits (b / 10 ^ (numDigits b - numDigits a)) = numDigits a := by omega
      rw [hu, append_lt_iff (by rw [length_write, length_write, heq]), ← Nat.le_div_iff_mul_le (Nat.pow_pos (by decide)),
        (write_lt_iff hf heq).1, Nat.not_lt]

end

end Decimal
