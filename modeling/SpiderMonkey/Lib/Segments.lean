import Mathlib.Tactic.ByContra

/-!
This module contains the positions of a sequence that is cut into segments: how many segments lie between two
of them, and the last one at or before a given place.
-/

namespace Segments

structure IsSegmentation (next : Nat → Nat → Prop) : Prop where
  lt : ∀ {a b : Nat}, next a b → a < b
  unique : ∀ {a b b' : Nat}, next a b → next a b' → b = b'

inductive Count (next : Nat → Nat → Prop) : Nat → Nat → Nat → Prop where
  | nil (a : Nat) : Count next a a 0
  | cons {a b c n : Nat} : next a b → Count next b c n → Count next a c (n + 1)

def Floor (next : Nat → Nat → Prop) (p q : Nat) : Prop := q = p ∨ q < p ∧ ∃ r, next q r ∧ p < r

section

variable {next : Nat → Nat → Prop} {a b c m n p q q' : Nat}

theorem Count.trans (h : Count next a b m) (h' : Count next b c n) : Count next a c (m + n) := by
  induction h with
  | nil a =>
    rw [Nat.zero_add]
    exact h'
  | @cons a b _ m hnext _ ih =>
    rw [Nat.add_right_comm]
    exact .cons hnext (ih h')

theorem Count.single (h : next a b) : Count next a b 1 := .cons h (.nil b)

theorem Floor.le (h : Floor next p q) : q ≤ p := by
  rcases h with rfl | ⟨hlt, -⟩
  . exact Nat.le_refl _
  . exact Nat.le_of_lt hlt

theorem Floor.self (p : Nat) : Floor next p p := .inl rfl

theorem exists_floor (h : Count next a c n) (ha : a ≤ p) (hc : p ≤ c)
    : ∃ q m, Count next a q m ∧ Floor next p q := by
  induction h with
  | nil a =>
    obtain rfl := Nat.le_antisymm ha hc
    exact ⟨a, 0, .nil a, .self a⟩
  | @cons a b c n hab hbc ih =>
    by_cases hb : b ≤ p
    . obtain ⟨q, m, hbq, hfloor⟩ := ih hb hc
      exact ⟨q, m + 1, .cons hab hbq, hfloor⟩
    rcases Nat.eq_or_lt_of_le ha with rfl | ha
    . exact ⟨a, 0, .nil a, .self a⟩
    . exact ⟨a, 0, .nil a, .inr ⟨ha, b, hab, by omega⟩⟩

variable (hnext : IsSegmentation next)

include hnext

theorem Count.add_le (h : Count next a b n) : a + n ≤ b := by
  induction h with
  | nil => exact Nat.le_refl _
  | cons hab _ ih =>
    have := hnext.lt hab
    omega

theorem Count.le (h : Count next a b n) : a ≤ b := by
  have := h.add_le hnext
  omega

theorem Count.rest (hab : Count next a b m) (hac : Count next a c n) (hle : b ≤ c)
    : ∃ k, n = m + k ∧ Count next b c k := by
  induction hab generalizing n with
  | nil a => exact ⟨n, (Nat.zero_add n).symm, hac⟩
  | @cons a d b m had hdb ih =>
    have hlt := hnext.lt had
    have hle' := hdb.le hnext
    cases hac with
    | nil => omega
    | @cons _ d' _ n had' hdc =>
      obtain rfl := hnext.unique had had'
      obtain ⟨k, rfl, hbc⟩ := ih hdc hle
      exact ⟨k, by omega, hbc⟩

theorem Count.unique (h : Count next a b m) (h' : Count next a b n) : m = n := by
  obtain ⟨k, rfl, hk⟩ := h.rest hnext h' (Nat.le_refl b)
  have := hk.add_le hnext
  omega

theorem Count.exists_last (h : Count next a c n) (hlt : a < c) : ∃ b, a ≤ b ∧ next b c := by
  induction h with
  | nil => exact absurd hlt (Nat.lt_irrefl _)
  | @cons a b c n hab hbc ih =>
    rcases Nat.eq_or_lt_of_le (hbc.le hnext) with rfl | hlt'
    . exact ⟨a, Nat.le_refl a, hab⟩
    obtain ⟨d, hd, hdc⟩ := ih hlt'
    have := hnext.lt hab
    exact ⟨d, by omega, hdc⟩

theorem Floor.le_of_count (hfloor : Floor next p q) (hq : Count next a q m) (hb : Count next a b n) (hle : b ≤ p)
    : b ≤ q := by
  rcases hfloor with rfl | ⟨hlt, r, hqr, hpr⟩
  . exact hle
  by_contra hgt
  obtain ⟨k, -, hqb⟩ := hq.rest hnext hb (by omega)
  cases hqb with
  | nil => omega
  | cons hqr' hrb =>
    obtain rfl := hnext.unique hqr hqr'
    have := hrb.le hnext
    omega

theorem Floor.unique (hfloor : Floor next p q) (hfloor' : Floor next p q') (hq : Count next a q m)
    (hq' : Count next a q' n) : q = q' :=
  Nat.le_antisymm (hfloor'.le_of_count hnext hq' hq hfloor.le) (hfloor.le_of_count hnext hq hq' hfloor'.le)

theorem Count.of_units (hac : Count next a c (c - a)) (hab : Count next a b m) (hle : b ≤ c)
    : m = b - a ∧ Count next b c (c - b) := by
  obtain ⟨k, hk, hbc⟩ := hab.rest hnext hac hle
  have h₁ := hab.add_le hnext
  have h₂ := hbc.add_le hnext
  obtain rfl : k = c - b := by omega
  exact ⟨by omega, hbc⟩

end

end Segments
