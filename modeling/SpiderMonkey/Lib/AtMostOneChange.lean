import Mathlib.Order.Interval.Set.Basic
import Mathlib.Data.Int.Init

/-!
This module contains functions on the integers that change their value at most once in an interval:
what the values at its two ends say about the values in between.
-/

namespace AtMostOneChange

variable {α : Type} {f : Int → α} {a b : Int} {c : α}

def ConstantOn (f : Int → α) (a b : Int) (c : α) : Prop := ∀ s, a ≤ s → s ≤ b → f s = c

def ChangesAt (f : Int → α) (s : Int) : Prop := f (s - 1) ≠ f s

def OneChange (f : Int → α) (a b : Int) : Prop :=
  ∀ s t, a < s → s ≤ b → a < t → t ≤ b → ChangesAt f s → ChangesAt f t → s = t

theorem OneChange.mono (h : OneChange f a b) (ha : a ≤ a') (hb : b' ≤ b)
    : OneChange f a' b' := by
  intro s t has hsb hat htb
  apply h s t <;> omega

theorem oneChange_of_changesAt_eq (h : ∀ s, ChangesAt f s → s = m) : OneChange f a b := by
  intro s t _ _ _ _ hs ht
  rw [h s hs, h t ht]

theorem ConstantOn.single (f : Int → α) (a : Int) : ConstantOn f a a (f a) := by
  intro s has hsa
  rw [show s = a by omega]

theorem ConstantOn.append (hleft : ConstantOn f a m c) (hright : ConstantOn f m b c)
    : ConstantOn f a b c := by
  intro s has hsb
  rcases le_total s m with hsm | hms
  . exact hleft s has hsm
  . exact hright s hms hsb

theorem constantOn_of_no_change (h : ∀ s, a < s → s ≤ b → ¬ ChangesAt f s)
    : ConstantOn f a b (f a) := by
  intro s has
  induction s, has using Int.leInduction with
  | base =>
    intro _
    rfl
  | succ s has ih =>
    intro hsb
    have hsame := h (s + 1) (by omega) hsb
    rw [ChangesAt, not_not, Int.add_sub_cancel] at hsame
    rw [← hsame]
    apply ih
    omega

theorem OneChange.split (h : OneChange f a b)
    : ∃ m, ConstantOn f a (m - 1) (f a) ∧ ConstantOn f m b (f b) := by
  by_cases hchange : ∃ m, a < m ∧ m ≤ b ∧ ChangesAt f m
  . obtain ⟨m, ham, hmb, hm⟩ := hchange
    refine ⟨m, ?_, ?_⟩
    . apply constantOn_of_no_change
      intro s has hsm hs
      have := h s m has (by omega) ham hmb hs hm
      omega
    have hconst : ConstantOn f m b (f m) := by
      apply constantOn_of_no_change
      intro s hms hsb hs
      have := h s m (by omega) hsb ham hmb hs hm
      omega
    intro s hms hsb
    rw [hconst s hms hsb, hconst b hmb (by omega)]
  . refine ⟨b + 1, ?_, ?_⟩
    . intro s has hsb
      apply constantOn_of_no_change (b := b) _ s has (by omega)
      intro m ham hmb hm
      exact hchange ⟨m, ham, hmb, hm⟩
    . intro s _ _
      omega

theorem OneChange.constantOn_of_ends_eq (h : OneChange f a b) (heq : f a = f b)
    : ConstantOn f a b (f a) := by
  obtain ⟨m, hleft, hright⟩ := h.split
  intro s has hsb
  rcases lt_or_ge s m with hsm | hms
  . exact hleft s has (by omega)
  . rw [hright s hms hsb, heq]

theorem OneChange.eq_left_of_ne_right (h : OneChange f a b) (has : a ≤ s) (hsb : s ≤ b) (hne : f s ≠ f b)
    : f s = f a := by
  obtain ⟨m, hleft, hright⟩ := h.split
  rcases lt_or_ge s m with hsm | hms
  . exact hleft s has (by omega)
  . exact absurd (hright s hms hsb) hne

theorem OneChange.eq_right_of_ne_left (h : OneChange f a b) (has : a ≤ s) (hsb : s ≤ b) (hne : f s ≠ f a)
    : f s = f b := by
  by_contra hright
  exact hne (h.eq_left_of_ne_right has hsb hright)

end AtMostOneChange
