import Mathlib.Data.List.Basic

/-!
This module contains lists of elements in the slots of a ring, one slot after another and around its end. Positions are
not reduced: their slot is what remains of them.
-/

namespace CircularBuffer

variable {T : Type} {ring xs ys : List T} {start p q k : Nat} {x y : T}

def Holds (ring : List T) (start : Nat) (xs : List T) : Prop :=
  ∀ k x, xs[k]? = some x → ring[(start + k) % ring.length]? = some x

theorem add_mod_of_lt (hp : p < c) (hd : d < c) : (p + d) % c = if p + d < c then p + d else p + d - c := by
  split
  next h => exact Nat.mod_eq_of_lt h
  next h => rw [Nat.mod_eq_sub_mod (Nat.not_lt.mp h), Nat.mod_eq_of_lt (by omega)]

theorem mod_ne_of_lt (hlt : p < q) (hclose : q < p + c) : p % c ≠ q % c := by
  intro heq
  have hzero : (q - p) % c = 0 := Nat.sub_mod_eq_zero_of_mod_eq heq.symm
  rw [Nat.mod_eq_of_lt (by omega)] at hzero
  omega

theorem holds_nil : Holds ring start [] := by
  intro k x hx
  cases hx

theorem Holds.head (h : Holds ring start (x :: xs)) : ring[start % ring.length]? = some x := h 0 x rfl

theorem Holds.left (h : Holds ring start (xs ++ ys)) : Holds ring start xs := by
  intro k x hx
  apply h
  rw [List.getElem?_append_left (List.getElem?_eq_some_iff.mp hx).1]
  exact hx

theorem Holds.right (h : Holds ring start (xs ++ ys)) : Holds ring (start + xs.length) ys := by
  intro k x hx
  rw [Nat.add_assoc]
  apply h
  rw [List.getElem?_append_right (Nat.le_add_right _ _), Nat.add_sub_cancel_left]
  exact hx

theorem Holds.of_cons (h : Holds ring start (x :: xs)) : Holds ring (start + 1) xs :=
  Holds.right (show Holds ring start ([x] ++ xs) from h)

theorem Holds.set (h : Holds ring start xs) (y : T) (hp : ∀ k < xs.length, (start + k) % ring.length ≠ p)
    : Holds (ring.set p y) start xs := by
  intro k x hx
  rw [List.length_set, List.getElem?_set_ne (hp k (List.getElem?_eq_some_iff.mp hx).1).symm]
  exact h k x hx

theorem Holds.concat (h : Holds ring start xs) (hlt : xs.length < ring.length) (x : T)
    : Holds (ring.set ((start + xs.length) % ring.length) x) start (xs ++ [x]) := by
  intro k y hy
  rw [List.length_set]
  rcases Nat.lt_trichotomy k xs.length with hk | rfl | hk
  . rw [List.getElem?_append_left hk] at hy
    rw [List.getElem?_set_ne (mod_ne_of_lt (by omega) (by omega)).symm]
    exact h k y hy
  . rw [List.getElem?_concat_length] at hy
    cases hy
    exact List.getElem?_set_self (Nat.mod_lt _ (by omega))
  . rw [List.getElem?_eq_none (by rw [List.length_append]; exact hk)] at hy
    cases hy

theorem Holds.tail (h : Holds ring start (x :: xs)) (hlt : xs.length < ring.length) (y : T)
    : Holds (ring.set (start % ring.length) y) (start + 1) xs := by
  apply h.of_cons.set
  intro k hk
  exact (mod_ne_of_lt (by omega) (by omega)).symm

theorem Holds.filterMap (h : Holds ring start xs)
    : (List.range xs.length).filterMap (fun k => ring[(start + k) % ring.length]?) = xs := by
  induction xs generalizing start with
  | nil => rfl
  | cons x xs ih =>
    rw [List.length_cons, List.range_succ_eq_map, List.filterMap_cons, Nat.add_zero, h.head, List.filterMap_map]
    have hnext : (fun k => ring[(start + k) % ring.length]?) ∘ Nat.succ
        = fun k => ring[(start + 1 + k) % ring.length]? := by
      funext k
      rw [Function.comp_apply, Nat.succ_eq_add_one, Nat.add_comm k 1, Nat.add_assoc]
    rw [hnext, ih h.of_cons]

end CircularBuffer
