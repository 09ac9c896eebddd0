import Mathlib.Data.List.Count
import Mathlib.Data.List.Nodup
import Mathlib.Data.List.Range

/-!
This module contains the buckets of a list of keys: where each starts when they lie one after the other, and what is
in it.
-/

namespace Buckets

open List

def before (keys : List Nat) (b : Nat) : Nat := keys.countP (· < b)

def bucket (keys : List Nat) (b : Nat) : List Nat :=
  ((List.range keys.length).filter fun i => keys[i]? = some b).reverse

variable {keys : List Nat} {b c i n : Nat}

theorem before_zero (keys : List Nat) : before keys 0 = 0 := by
  unfold before
  rw [countP_eq_zero]
  intro key _
  simp

theorem before_succ (keys : List Nat) (b : Nat) : before keys (b + 1) = before keys b + keys.count b := by
  unfold before
  induction keys with
  | nil => rfl
  | cons key keys ih =>
    rw [countP_cons, countP_cons, count_cons, ih]
    simp only [decide_eq_true_eq, beq_iff_eq]
    split_ifs <;> omega

theorem before_mono (keys : List Nat) (h : b ≤ c) : before keys b ≤ before keys c := by
  induction h with
  | refl => exact Nat.le_refl _
  | step _ ih =>
    rw [Nat.succ_eq_add_one, before_succ]
    omega

theorem before_eq_length (h : ∀ key ∈ keys, key < n) : before keys n = keys.length := by
  unfold before
  rw [countP_eq_length]
  intro key hkey
  exact decide_eq_true (h key hkey)

theorem mem_bucket : i ∈ bucket keys b ↔ keys[i]? = some b := by
  unfold bucket
  rw [mem_reverse, mem_filter, mem_range, decide_eq_true_eq]
  exact and_iff_right_of_imp fun h => (List.getElem?_eq_some_iff.mp h).1

theorem nodup_bucket (keys : List Nat) (b : Nat) : (bucket keys b).Nodup :=
  nodup_reverse.2 (nodup_range.filter _)

theorem bucket_concat (keys : List Nat) (c b : Nat)
    : bucket (keys ++ [c]) b = if c = b then keys.length :: bucket keys b else bucket keys b := by
  have hkept : (List.range keys.length).filter (fun i => (keys ++ [c])[i]? = some b)
      = (List.range keys.length).filter fun i => keys[i]? = some b := by
    apply filter_congr
    intro i hi
    rw [List.getElem?_append_left (mem_range.mp hi)]
  unfold bucket
  rw [length_append, length_singleton, range_succ, filter_append, hkept, reverse_append]
  rw [filter_cons, List.getElem?_concat_length, filter_nil]
  simp only [Option.some.injEq, decide_eq_true_eq]
  split
  next => rfl
  next => rfl

end Buckets
