import Mathlib.Algebra.BigOperators.Ring.Finset
import Mathlib.Algebra.Order.BigOperators.Group.Finset
import Mathlib.Tactic.Linarith
import Mathlib.Tactic.Ring

/-!
This module contains the arithmetic of positional numerals whose digits are given by a function, least significant
digit first, or by a list, most significant digit first.
-/

open Finset

namespace Radix

/--
The value of the `n` lowest digits of `d` in base `b`.
-/
def value (b : Nat) (d : Nat → Nat) (n : Nat) : Nat :=
  ∑ i ∈ range n, d i * b ^ i

@[simp]
theorem value_zero (b : Nat) (d : Nat → Nat) : value b d 0 = 0 := by
  simp [value]

theorem value_succ (b : Nat) (d : Nat → Nat) (n : Nat)
    : value b d (n + 1) = value b d n + d n * b ^ n := by
  simp [value, sum_range_succ]

theorem value_succ_low (b : Nat) (d : Nat → Nat) (n : Nat)
    : value b d (n + 1) = d 0 + b * value b (fun i => d (i + 1)) n := by
  unfold value
  rw [sum_range_succ', mul_sum, add_comm]
  congr 1
  . simp
  apply sum_congr rfl
  intro i _
  ring

theorem value_add (b : Nat) (d : Nat → Nat) (m n : Nat)
    : value b d (m + n) = value b d m + b ^ m * value b (fun i => d (m + i)) n := by
  unfold value
  rw [sum_range_add, mul_sum]
  congr 1
  apply sum_congr rfl
  intro i _
  ring

theorem value_congr (h : ∀ i, i < n → d i = e i)
    : value b d n = value b e n := by
  unfold value
  apply sum_congr rfl
  intro i hi
  rw [h i (by simpa using hi)]

theorem value_lt (h : ∀ i, i < n → d i < b)
    : value b d n < b ^ n := by
  induction n with
  | zero => simp
  | succ n ih =>
    have hlow := ih (fun i hi => h i (by omega))
    have htop : d n * b ^ n + b ^ n ≤ b ^ (n + 1) := by
      have := Nat.mul_le_mul_right (b ^ n) (Nat.succ_le_of_lt (h n (by omega)))
      rw [pow_succ]
      linarith
    rw [value_succ]
    omega

theorem le_value {n i : Nat} (hi : i < n)
    : d i * b ^ i ≤ value b d n := by
  unfold value
  apply single_le_sum (f := fun i => d i * b ^ i)
  . intros
    apply Nat.zero_le
  . simpa using hi

theorem value_eq_zero_iff (hb : 0 < b)
    : value b d n = 0 ↔ ∀ i, i < n → d i = 0 := by
  unfold value
  rw [sum_eq_zero_iff]
  constructor
  . intro h i hi
    have := h i (by simpa using hi)
    have hpos : 0 < b ^ i := Nat.pow_pos hb
    exact (Nat.mul_eq_zero.mp this).resolve_right hpos.ne'
  . intro h i hi
    rw [h i (by simpa using hi)]
    simp

/--
High digits that are zero do not contribute.
-/
theorem value_trim (hmn : m ≤ n) (h : ∀ i, m ≤ i → i < n → d i = 0) : value b d n = value b d m := by
  obtain ⟨k, rfl⟩ := Nat.exists_eq_add_of_le hmn
  rw [value_add]
  have : value b (fun i => d (m + i)) k = 0 := by
    unfold value
    apply sum_eq_zero
    intro i hi
    have : d (m + i) = 0 := h (m + i) (by omega) (by simp at hi; omega)
    simp [this]
  simp [this]

/--
One step of a loop that writes the digit `lo` and carries `hi` on to the next one.
-/
theorem carry_step {b v i lo hi t : Nat} (h : lo + hi * b = t)
    : v + lo * b ^ i + hi * b ^ (i + 1) = v + t * b ^ i := by
  rw [← h, pow_succ]
  ring

theorem value_complement (h : ∀ i, i < n → d i < b)
    : value b d n + value b (fun i => b - 1 - d i) n + 1 = b ^ n := by
  induction n with
  | zero => simp
  | succ n ih =>
    have hlow := ih (fun i hi => h i (by omega))
    have hn := h n (by omega)
    have htop : d n * b ^ n + (b - 1 - d n) * b ^ n + b ^ n = b ^ (n + 1) := by
      rw [← Nat.add_mul, pow_succ']
      calc (d n + (b - 1 - d n)) * b ^ n + b ^ n
          = (d n + (b - 1 - d n) + 1) * b ^ n := by ring
        _ = b * b ^ n := by
          congr 1
          omega
    rw [value_succ, value_succ]
    omega

/--
Adding one carries out of all digits exactly when each of them is the largest digit.
-/
theorem value_succ_eq_pow_iff (hb : 0 < b) (h : ∀ i, i < n → d i < b)
    : value b d n + 1 = b ^ n ↔ ∀ i, i < n → d i = b - 1 := by
  have hcomplement := value_complement h
  have hzero := value_eq_zero_iff hb (d := fun i => b - 1 - d i) (n := n)
  constructor
  . intro heq i hi
    have := hzero.mp (by omega) i hi
    have := h i hi
    omega
  intro hall
  have : value b (fun i => b - 1 - d i) n = 0 := by
    apply hzero.mpr
    intro i hi
    rw [hall i hi]
    omega
  omega

end Radix

namespace Horner

def step (b v d : Nat) : Nat := v * b + d

def value (b v : Nat) (l : List Nat) : Nat := l.foldl (step b) v

section

variable {b : Nat}

theorem value_cons (b v d : Nat) (l : List Nat) : value b v (d :: l) = value b (v * b + d) l := rfl

theorem value_append (b v : Nat) (l l' : List Nat) : value b v (l ++ l') = value b (value b v l) l' := List.foldl_append

theorem value_eq (b v : Nat) (l : List Nat) : value b v l = v * b ^ l.length + value b 0 l := by
  induction l generalizing v with
  | nil => exact (Nat.mul_one v).symm
  | cons d l ih =>
    rw [value_cons, value_cons, ih, ih (0 * b + d), List.length_cons]
    ring

theorem value_lt (hl : ∀ d ∈ l, d < b) : value b 0 l < b ^ l.length := by
  induction l with
  | nil => exact Nat.one_pos
  | cons d l ih =>
    have hd : d + 1 ≤ b := hl d List.mem_cons_self
    have hlt := ih fun d hd => hl d (List.mem_cons_of_mem _ hd)
    rw [value_cons, value_eq, Nat.zero_mul, Nat.zero_add, List.length_cons]
    calc d * b ^ l.length + value b 0 l < d * b ^ l.length + b ^ l.length := Nat.add_lt_add_left hlt _
      _ = (d + 1) * b ^ l.length := (Nat.succ_mul ..).symm
      _ ≤ b * b ^ l.length := Nat.mul_le_mul_right _ hd
      _ = b ^ (l.length + 1) := Nat.pow_succ'.symm

theorem value_dropWhile (b : Nat) (l : List Nat) : value b 0 (l.dropWhile (· = 0)) = value b 0 l := by
  induction l with
  | nil => rfl
  | cons d l ih =>
    rw [List.dropWhile_cons]
    split
    next hd =>
      obtain rfl : d = 0 := of_decide_eq_true hd
      rw [ih, value_cons, Nat.zero_mul]
    next => rfl

end

section

def bits (d : Nat) : Nat → List Nat
  | 0 => []
  | j + 1 => d / 2 ^ j % 2 :: bits d j

theorem length_bits (d j : Nat) : (bits d j).length = j := by
  induction j with
  | zero => rfl
  | succ j ih => rw [bits, List.length_cons, ih]

theorem bits_lt (d j : Nat) : ∀ bit ∈ bits d j, bit < 2 := by
  induction j with
  | zero => exact List.forall_mem_nil _
  | succ j ih => exact List.forall_mem_cons.mpr ⟨Nat.mod_lt _ (by decide), ih⟩

theorem value_bits (d j v : Nat) : value 2 v (bits d j) = v * 2 ^ j + d % 2 ^ j := by
  induction j generalizing v with
  | zero =>
    rw [Nat.pow_zero, Nat.mod_one, Nat.mul_one]
    rfl
  | succ j ih =>
    rw [bits, value_cons, ih, Nat.mod_pow_succ, Nat.pow_succ]
    ring

theorem value_flatMap_bits (hl : ∀ d ∈ l, d < 2 ^ k) (v : Nat)
    : value 2 v (l.flatMap (bits · k)) = value (2 ^ k) v l := by
  induction l generalizing v with
  | nil => rfl
  | cons d l ih =>
    rw [List.flatMap_cons, value_append, value_bits, Nat.mod_eq_of_lt (hl d List.mem_cons_self), value_cons]
    exact ih (fun d hd => hl d (List.mem_cons_of_mem _ hd)) _

theorem length_flatMap_bits (l : List Nat) (k : Nat) : (l.flatMap (bits · k)).length = l.length * k := by
  induction l with
  | nil => exact (Nat.zero_mul k).symm
  | cons d l ih => rw [List.flatMap_cons, List.length_append, ih, length_bits, List.length_cons, Nat.succ_mul, Nat.add_comm]

theorem flatMap_bits_lt (l : List Nat) (k : Nat) : ∀ bit ∈ l.flatMap (bits · k), bit < 2 := by
  intro bit hbit
  obtain ⟨d, _, hbit⟩ := List.mem_flatMap.mp hbit
  exact bits_lt d k bit hbit

theorem dropWhile_eq_cons (hl : ∀ bit ∈ l, bit < 2) (hlarge : 2 ^ m ≤ value 2 0 l)
    : ∃ l', l.dropWhile (· = 0) = 1 :: l' ∧ m ≤ l'.length := by
  have hmem : ∀ bit ∈ l.dropWhile (· = 0), bit < 2 := fun bit hbit => hl bit ((List.dropWhile_sublist _).subset hbit)
  have hhead := List.head?_dropWhile_not (fun bit => decide (bit = 0)) l
  rw [← value_dropWhile] at hlarge
  generalize l.dropWhile (· = 0) = l' at hlarge hmem hhead ⊢
  cases l' with
  | nil => exact absurd hlarge (Nat.not_le.mpr (Nat.two_pow_pos m))
  | cons bit l' =>
    have hne : bit ≠ 0 := of_decide_eq_false hhead
    obtain rfl : bit = 1 := by
      have hbit := hmem bit List.mem_cons_self
      omega
    have hlt : m < (1 :: l').length := (Nat.pow_lt_pow_iff_right (by decide)).mp (hlarge.trans_lt (value_lt hmem))
    exact ⟨l', rfl, Nat.le_of_lt_succ hlt⟩

end

end Horner
