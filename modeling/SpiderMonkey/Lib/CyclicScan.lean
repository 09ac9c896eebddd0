import Mathlib.Data.Nat.Init

/-!
This module contains the search for a position with a property that starts anywhere and goes back to the
first position when it has passed the last one.
-/

namespace CyclicScan

variable {limit : Nat} {ok : Nat → Bool}

def normalize (limit position : Nat) : Nat := if limit < position then 0 else position

def scan (limit : Nat) (ok : Nat → Bool) : Nat → Nat → Option Nat
  | 0, _ => none
  | rounds + 1, position =>
    if ok (normalize limit position) then some (normalize limit position)
    else scan limit ok rounds (normalize limit position + 1)

theorem normalize_le (limit position : Nat) : normalize limit position ≤ limit := by
  unfold normalize
  split <;> omega

theorem scan_sound {rounds start found : Nat} (h : scan limit ok rounds start = some found)
    : found ≤ limit ∧ ok found = true := by
  induction rounds generalizing start with
  | zero => cases h
  | succ rounds ih =>
    unfold scan at h
    split at h
    next hok =>
      cases h
      exact ⟨normalize_le limit start, hok⟩
    next => exact ih h

theorem not_ok_of_scan {rounds start : Nat} (h : scan limit ok rounds start = none) {position : Nat}
    (hstart : start ≤ position) (hrounds : position < start + rounds) (hlimit : position ≤ limit)
    : ok position = false := by
  induction rounds generalizing start with
  | zero => omega
  | succ rounds ih =>
    have hnormal : normalize limit start = start := by
      unfold normalize
      rw [if_neg (by omega)]
    unfold scan at h
    rw [hnormal] at h
    split at h
    next => cases h
    next hok =>
      by_cases heq : start = position
      . rw [← heq]
        exact Bool.not_eq_true _ ▸ hok
      . exact ih h (by omega) (by omega)

theorem scan_of_limit_lt {rounds start : Nat} (h : limit < start)
    : scan limit ok rounds start = scan limit ok rounds 0 := by
  cases rounds with
  | zero => rfl
  | succ rounds =>
    have hnormal : normalize limit start = normalize limit 0 := by
      unfold normalize
      rw [if_pos h, if_neg (Nat.not_lt_zero limit)]
    unfold scan
    rw [hnormal]

theorem scan_none_of_turn {rounds start : Nat} (h : scan limit ok rounds start = none)
    (hstart : start ≤ limit + 1) (hrounds : limit + 1 ≤ start + rounds)
    : scan limit ok (start + rounds - (limit + 1)) 0 = none := by
  induction rounds generalizing start with
  | zero =>
    rw [show start + 0 - (limit + 1) = 0 by omega]
    rfl
  | succ rounds ih =>
    by_cases hturn : start = limit + 1
    . rw [hturn, Nat.add_sub_cancel_left, ← scan_of_limit_lt (Nat.lt_succ_self limit)]
      rw [hturn] at h
      exact h
    have hnormal : normalize limit start = start := by
      unfold normalize
      rw [if_neg (by omega)]
    unfold scan at h
    rw [hnormal] at h
    split at h
    next => cases h
    next =>
      rw [show start + (rounds + 1) = start + 1 + rounds by omega]
      exact ih h (by omega) (by omega)

theorem scan_complete {rounds start : Nat} (h : scan limit ok rounds start = none)
    (hrounds : limit < rounds) {position : Nat} (hlimit : position ≤ limit)
    : ok position = false := by
  by_cases hstart : limit < start
  . rw [scan_of_limit_lt hstart] at h
    exact not_ok_of_scan h (Nat.zero_le position) (by omega) hlimit
  by_cases hbefore : position < start
  . have hturned := scan_none_of_turn h (by omega) (by omega)
    exact not_ok_of_scan hturned (Nat.zero_le position) (by omega) hlimit
  . exact not_ok_of_scan h (by omega) (by omega) hlimit

end CyclicScan
