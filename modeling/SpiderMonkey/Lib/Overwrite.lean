import Mathlib.Data.Int.NatAbs
import Mathlib.Data.List.Basic

/-!
This module contains what it means to overwrite a range of a list, and how loops that write one entry after the other,
up or down, do it.
-/

namespace Overwrite

open List

variable {α : Type}

def overwrite (l : List α) (i : Nat) (xs : List α) : List α := l.take i ++ xs ++ l.drop (i + xs.length)

def slice (l : List α) (i n : Nat) : List α := (l.drop i).take n

variable {l xs : List α} {i j n : Nat} {a : α}

theorem length_slice (h : i + n ≤ l.length) : (slice l i n).length = n := by
  unfold slice
  rw [length_take, length_drop]
  omega

theorem getElem?_slice : (slice l i n)[j]? = if j < n then l[i + j]? else none := by
  unfold slice
  rw [List.getElem?_take]
  split
  next => rw [List.getElem?_drop]
  next => rfl

theorem slice_nil (i n : Nat) : slice ([] : List α) i n = [] := by
  unfold slice
  rw [drop_nil, take_nil]

theorem overwrite_nil (l : List α) (i : Nat) : overwrite l i [] = l := by
  unfold overwrite
  rw [append_nil, length_nil, Nat.add_zero, take_append_drop]

theorem length_overwrite (h : i + xs.length ≤ l.length) : (overwrite l i xs).length = l.length := by
  unfold overwrite
  rw [length_append, length_append, length_take, length_drop]
  omega

theorem getElem?_overwrite (h : i + xs.length ≤ l.length) (j : Nat)
    : (overwrite l i xs)[j]? = if i ≤ j ∧ j < i + xs.length then xs[j - i]? else l[j]? := by
  have hi : (l.take i).length = i := by
    rw [length_take]
    omega
  unfold overwrite
  by_cases hj : j < i
  . rw [if_neg (by omega), append_assoc, List.getElem?_append_left (by omega), List.getElem?_take, if_pos hj]
  by_cases hend : j < i + xs.length
  . rw [if_pos ⟨by omega, hend⟩, append_assoc, List.getElem?_append_right (by omega), hi,
      List.getElem?_append_left (by omega)]
  rw [if_neg (by omega), List.getElem?_append_right (by rw [length_append]; omega), length_append, hi,
    List.getElem?_drop]
  congr 1
  omega

theorem set_overwrite_above (h : i + xs.length < l.length)
    : (overwrite l i xs).set (i + xs.length) a = overwrite l i (xs ++ [a]) := by
  have hlength : (l.take i ++ xs).length = i + xs.length := by
    rw [length_append, length_take]
    omega
  unfold overwrite
  rw [set_append_right _ _ (by omega), hlength, Nat.sub_self, drop_eq_getElem_cons h, set_cons_zero,
    length_append, length_singleton, ← append_assoc, append_assoc (l.take i ++ xs)]
  rfl

theorem set_overwrite_below (h : i + 1 + xs.length ≤ l.length)
    : (overwrite l (i + 1) xs).set i a = overwrite l i (a :: xs) := by
  have hi : i < l.length := by omega
  have hlength : (l.take i).length = i := by
    rw [length_take]
    omega
  unfold overwrite
  rw [take_add_one, List.getElem?_eq_getElem hi, append_assoc, append_assoc,
    set_append_right _ _ (by omega), hlength, Nat.sub_self, length_cons, append_assoc,
    show i + (xs.length + 1) = i + 1 + xs.length by omega]
  rfl

theorem overwrite_slice (h : i + n ≤ l.length) : overwrite l i (slice l i n) = l := by
  have hlength := length_slice h
  apply ext_getElem?
  intro j
  rw [getElem?_overwrite (by omega), hlength]
  split
  next hj =>
    rw [getElem?_slice, if_pos (by omega)]
    congr 1
    omega
  next => rfl

theorem overwrite_append (h : ys.length = xs.length) : overwrite (l ++ ys) l.length xs = l ++ xs := by
  unfold overwrite
  rw [take_left, drop_of_length_le (by rw [length_append]; omega), append_nil]

theorem overwrite_append_right (as bs xs : List α) (i : Nat)
    : overwrite (as ++ bs) (as.length + i) xs = as ++ overwrite bs i xs := by
  unfold overwrite
  rw [take_length_add_append, Nat.add_assoc, drop_length_add_append, append_assoc, append_assoc, append_assoc]

theorem overwrite_front (h : ys.length = xs.length) (bs : List α)
    : overwrite (ys ++ bs) 0 xs = xs ++ bs := by
  unfold overwrite
  rw [take_zero, nil_append, Nat.zero_add, ← h, drop_left]

theorem overwrite_concat (as bs xs : List α) : overwrite (as ++ bs) as.length xs = as ++ xs ++ bs.drop xs.length := by
  unfold overwrite
  rw [take_left, drop_length_add_append]

theorem slice_append_right (as bs : List α) (i n : Nat) : slice (as ++ bs) (as.length + i) n = slice bs i n := by
  unfold slice
  rw [drop_length_add_append]

theorem overwrite_singleton (h : i < l.length) : overwrite l i [a] = l.set i a := by
  have hset : (overwrite l i []).set (i + ([] : List α).length) a = _ := set_overwrite_above h
  rw [overwrite_nil] at hset
  exact hset.symm

theorem slice_add (l : List α) (i m n : Nat) : slice l i (m + n) = slice l i m ++ slice l (i + m) n := by
  unfold slice
  rw [take_add, drop_drop]

theorem slice_overwrite (hle : i + xs.length ≤ l.length) (h : i + xs.length ≤ j ∨ j + n ≤ i)
    : slice (overwrite l i xs) j n = slice l j n := by
  apply ext_getElem?
  intro k
  rw [getElem?_slice, getElem?_slice]
  split
  next hk => rw [getElem?_overwrite hle, if_neg (by omega)]
  next => rfl

theorem slice_overwrite_self (h : i + xs.length ≤ l.length) : slice (overwrite l i xs) i xs.length = xs := by
  have hi : (l.take i).length = i := by
    rw [length_take]
    omega
  unfold slice overwrite
  rw [append_assoc, drop_append_of_le_length (by omega), drop_of_length_le (by omega), nil_append, take_left]

theorem overwrite_overwrite_above (h : i + xs.length + ys.length ≤ l.length)
    : overwrite (overwrite l i xs) (i + xs.length) ys = overwrite l i (xs ++ ys) := by
  have hlength := length_overwrite (show i + xs.length ≤ l.length by omega)
  apply ext_getElem?
  intro k
  rw [getElem?_overwrite (by omega), getElem?_overwrite (by omega),
    getElem?_overwrite (by rw [length_append]; omega), length_append, List.getElem?_append]
  split_ifs <;> first | rfl | omega | (congr 1; omega)

theorem overwrite_replicate (h : i + n < l.length)
    : overwrite (overwrite l i (List.replicate n a)) (i + n) [a] = overwrite l i (List.replicate (n + 1) a) := by
  have hlength : (List.replicate n a).length = n := length_replicate
  have habove : overwrite (overwrite l i (List.replicate n a)) (i + (List.replicate n a).length) [a] = _ :=
    overwrite_overwrite_above (by rw [hlength, length_singleton]; omega)
  rw [hlength] at habove
  rw [habove, replicate_succ']

theorem overwrite_overwrite_below (h : i + ys.length + xs.length ≤ l.length)
    : overwrite (overwrite l (i + ys.length) xs) i ys = overwrite l i (ys ++ xs) := by
  have hlength := length_overwrite (show i + ys.length + xs.length ≤ l.length by omega)
  apply ext_getElem?
  intro k
  rw [getElem?_overwrite (by omega), getElem?_overwrite (by omega),
    getElem?_overwrite (by rw [length_append]; omega), length_append, List.getElem?_append]
  split_ifs <;> first | rfl | omega | (congr 1; omega)

theorem take_overwrite (h : i + xs.length ≤ l.length) : (overwrite l i xs).take (i + xs.length) = l.take i ++ xs := by
  have hlength : (l.take i ++ xs).length = i + xs.length := by
    rw [length_append, length_take]
    omega
  unfold overwrite
  rw [← hlength, take_left]

theorem take_overwrite_slice (hi : i + n ≤ l.length) (hj : j + n ≤ k) (hk : k ≤ l.length)
    : (overwrite l i (slice l j n)).take k = overwrite (l.take k) i (slice (l.take k) j (min n (k - i))) := by
  have htake : (l.take k).length = k := by
    rw [length_take, Nat.min_eq_left hk]
  have hlength := length_slice (show j + n ≤ l.length by omega)
  have hlength' := length_slice (show j + min n (k - i) ≤ (l.take k).length by omega)
  apply ext_getElem?
  intro m
  by_cases hik : i ≤ k
  . rw [List.getElem?_take, getElem?_overwrite (by omega), getElem?_overwrite (by omega), hlength, hlength',
      getElem?_slice, getElem?_slice, List.getElem?_take, List.getElem?_take]
    split_ifs <;> first | rfl | omega
  have hnone : slice (l.take k) j (min n (k - i)) = [] := by
    rw [show min n (k - i) = 0 by omega]
    exact take_zero
  rw [hnone, overwrite_nil, List.getElem?_take, List.getElem?_take, getElem?_overwrite (by omega)]
  split_ifs <;> first | rfl | omega

section

variable {β : Type} (f : α → β)

theorem map_slice (l : List α) (i n : Nat) : (slice l i n).map f = slice (l.map f) i n := by
  unfold slice
  rw [map_take, map_drop]

theorem map_overwrite (l : List α) (i : Nat) (xs : List α)
    : (overwrite l i xs).map f = overwrite (l.map f) i (xs.map f) := by
  unfold overwrite
  rw [map_append, map_append, map_take, map_drop, length_map]

end

theorem overwrite_inj (hxs : i + xs.length ≤ l.length) (hlength : xs.length = ys.length)
    (h : overwrite l i xs = overwrite l i ys) : xs = ys := by
  apply ext_getElem?
  intro j
  by_cases hj : j < xs.length
  . have hget := congrArg (·[i + j]?) h
    rw [getElem?_overwrite hxs, getElem?_overwrite (by omega), if_pos (by omega), if_pos (by omega),
      Nat.add_sub_cancel_left] at hget
    exact hget
  . rw [List.getElem?_eq_none (by omega), List.getElem?_eq_none (by omega)]

end Overwrite
