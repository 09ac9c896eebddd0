import Mathlib.Algebra.Order.Ring.Nat
import Mathlib.Data.Nat.ModEq
import Mathlib.Data.Nat.Prime.Basic
import SpiderMonkey.Lib.Lists

/-!
This module contains tables with open addressing, where an entry is put into the first slot of its probe path that has
no other one, and the probe sequences of double hashing in tables whose size is a power of two. A slot whose entry has
been removed still counts as passed by the probes of others, and a live slot does so from when its collision bit has
been set.
-/

open List

namespace DoubleHashing

def probe (size start stride : Nat) (i : Nat) : Nat := (start + i * (size - stride)) % size

theorem probe_zero {size start stride : Nat} (h : start < size) : probe size start stride 0 = start := by
  unfold probe
  rw [Nat.zero_mul, Nat.add_zero, Nat.mod_eq_of_lt h]

theorem probe_succ (size start stride i : Nat)
    : probe size start stride (i + 1) = (probe size start stride i + (size - stride)) % size := by
  unfold probe
  rw [Nat.mod_add_mod, Nat.add_mul, Nat.one_mul, Nat.add_assoc]

theorem exists_probe {k start stride j : Nat} (hk : 0 < k) (hodd : stride % 2 = 1)
    (hstride : stride < 2 ^ k) (hj : j < 2 ^ k)
    : ∃ i < 2 ^ k, probe (2 ^ k) start stride i = j := by
  have htwo : 2 ^ k = 2 * 2 ^ (k - 1) := by
    rw [← Nat.pow_succ']
    congr 1
    omega
  have hcoprime : Nat.Coprime (2 ^ k - stride) (2 ^ k) := by
    apply Nat.Coprime.pow_right
    rw [Nat.coprime_two_right, Nat.odd_iff]
    omega
  obtain ⟨i, hi, heq⟩ := Nat.exists_mul_mod_eq_of_coprime (j + (2 ^ k - start % 2 ^ k)) hcoprime (by omega)
  refine ⟨i, hi, ?_⟩
  have hstart : start % 2 ^ k < 2 ^ k := Nat.mod_lt _ (by omega)
  calc probe (2 ^ k) start stride i
      = (start + (2 ^ k - stride) * i) % 2 ^ k := by rw [probe, Nat.mul_comm]
    _ = (start % 2 ^ k + (j + (2 ^ k - start % 2 ^ k))) % 2 ^ k := by
      rw [Nat.add_mod, heq, ← Nat.add_mod, Nat.mod_add_mod]
    _ = (j + 2 ^ k) % 2 ^ k := by
      congr 1
      omega
    _ = j := by rw [Nat.add_mod_right, Nat.mod_eq_of_lt hj]

end DoubleHashing

namespace OpenAddressing

inductive Slot (α : Type) where
  | free
  | removed
  | live (collided : Bool) (x : α)
deriving DecidableEq, Repr

variable {α : Type}

namespace Slot

def entry : Slot α → Option α
  | live _ x => some x
  | _ => none

def isRemoved : Slot α → Bool
  | removed => true
  | _ => false

def isFree : Slot α → Bool
  | free => true
  | _ => false

def isPassed : Slot α → Bool
  | removed | live true _ => true
  | _ => false

def mark : Slot α → Slot α
  | live _ x => live true x
  | slot => slot

theorem entry_mark (slot : Slot α) : slot.mark.entry = slot.entry := by
  cases slot <;> rfl

theorem isRemoved_mark (slot : Slot α) : slot.mark.isRemoved = slot.isRemoved := by
  cases slot <;> rfl

end Slot

def entries (slots : List (Slot α)) : List α := slots.filterMap Slot.entry

def removedCount (slots : List (Slot α)) : Nat := slots.countP Slot.isRemoved

def Passed (slots : List (Slot α)) (j : Nat) : Prop :=
  ∃ slot, slots[j]? = some slot ∧ slot.isPassed

def Reached (slots : List (Slot α)) (path : Nat → Nat) (j : Nat) : Prop :=
  ∃ i, path i = j ∧ ∀ i' < i, Passed slots (path i')

def Reachable (path : α → Nat → Nat) (slots : List (Slot α)) : Prop :=
  ∀ j c x, slots[j]? = some (.live c x) → Reached slots (path x) j

def Marked (slots slots' : List (Slot α)) : Prop :=
  ∀ j : Nat, slots'[j]? = slots[j]? ∨ slots'[j]? = slots[j]?.map Slot.mark

theorem length_eq (slots : List (Slot α))
    : (entries slots).length + removedCount slots + slots.countP Slot.isFree = slots.length := by
  induction slots with
  | nil => rfl
  | cons slot slots ih =>
    unfold entries removedCount at ih ⊢
    cases slot with
    | free =>
      simp only [filterMap_cons, countP_cons, length_cons, Slot.entry, Slot.isRemoved, Slot.isFree]
      simp
      omega
    | removed =>
      simp only [filterMap_cons, countP_cons, length_cons, Slot.entry, Slot.isRemoved, Slot.isFree]
      simp
      omega
    | live c x =>
      simp only [filterMap_cons, countP_cons, length_cons, Slot.entry, Slot.isRemoved, Slot.isFree]
      simp
      omega

theorem exists_free {slots : List (Slot α)} (h : (entries slots).length + removedCount slots < slots.length)
    : ∃ j : Nat, slots[j]? = some .free := by
  have hlen := length_eq slots
  have hpos : 0 < slots.countP Slot.isFree := by omega
  obtain ⟨slot, hmem, hfree⟩ := countP_pos_iff.mp hpos
  obtain ⟨j, hj⟩ := List.getElem?_of_mem hmem
  cases slot with
  | free => exact ⟨j, hj⟩
  | removed => contradiction
  | live => contradiction

theorem exists_not_live {slots : List (Slot α)} (h : (entries slots).length < slots.length)
    : ∃ (j : Nat) (slot : Slot α), slots[j]? = some slot ∧ slot.entry = none := by
  by_contra hnot
  have hall : ∀ slot ∈ slots, slot.entry.isSome := by
    intro slot hslot
    obtain ⟨j, hj⟩ := List.getElem?_of_mem hslot
    rw [Option.isSome_iff_ne_none]
    intro hnone
    exact hnot ⟨j, slot, hj, hnone⟩
  have : (entries slots).length = slots.length := by
    unfold entries
    rw [length_filterMap_eq_countP, countP_eq_length]
    exact hall
  omega

section Set

variable {slots : List (Slot α)} {j : Nat} {old : Slot α}

theorem entries_set (h : slots[j]? = some old) (new : Slot α)
    : (old.entry.toList ++ entries (slots.set j new)).Perm (new.entry.toList ++ entries slots) :=
  Lists.filterMap_set_perm h new

theorem removedCount_set (h : slots[j]? = some old) (new : Slot α)
    : removedCount (slots.set j new) + (if old.isRemoved then 1 else 0)
        = removedCount slots + (if new.isRemoved then 1 else 0) :=
  Lists.countP_set_add Slot.isRemoved h new

end Set

namespace Marked

variable {slots slots' slots'' : List (Slot α)} {path : α → Nat → Nat}

theorem refl (slots : List (Slot α)) : Marked slots slots := fun _ => .inl rfl

theorem trans (h : Marked slots slots') (h' : Marked slots' slots'') : Marked slots slots'' := by
  intro j
  rcases h j with hj | hj
  . rcases h' j with hj' | hj'
    . exact .inl (hj'.trans hj)
    . rw [hj] at hj'
      exact .inr hj'
  rcases h' j with hj' | hj'
  . exact .inr (hj'.trans hj)
  right
  rw [hj', hj, Option.map_map]
  congr 1
  funext slot
  cases slot <;> rfl

theorem set {slot : Slot α} {j : Nat} (h : slots[j]? = some slot)
    : Marked slots (slots.set j slot.mark) := by
  intro i
  rw [List.getElem?_set]
  split
  next heq =>
    subst heq
    right
    obtain ⟨hlt, -⟩ := List.getElem?_eq_some_iff.mp h
    rw [if_pos hlt, h, Option.map_some]
  next => exact .inl rfl

theorem map_eq {β : Type} {f : Slot α → β} (hf : ∀ slot, f slot.mark = f slot)
    (h : Marked slots slots') : slots'.map f = slots.map f := by
  apply ext_getElem?
  intro j
  rw [List.getElem?_map, List.getElem?_map]
  rcases h j with hj | hj
  . rw [hj]
  rw [hj, Option.map_map]
  congr 1
  funext slot
  exact hf slot

theorem length (h : Marked slots slots') : slots'.length = slots.length := by
  have := congrArg List.length (h.map_eq (f := fun _ => ()) fun _ => rfl)
  rwa [length_map, length_map] at this

theorem entries_eq (h : Marked slots slots') : entries slots' = entries slots := by
  have := congrArg (List.filterMap id) (h.map_eq Slot.entry_mark)
  rwa [filterMap_map, filterMap_map] at this

theorem removedCount_eq (h : Marked slots slots') : removedCount slots' = removedCount slots := by
  have := congrArg (List.countP id) (h.map_eq Slot.isRemoved_mark)
  rwa [countP_map, countP_map] at this

theorem entry_eq (h : Marked slots slots') (j : Nat)
    : slots'[j]?.bind Slot.entry = slots[j]?.bind Slot.entry := by
  rcases h j with hj | hj
  . rw [hj]
  rw [hj]
  cases slots[j]? with
  | none => rfl
  | some slot => exact slot.entry_mark

theorem getElem?_eq_of_not_live {slot : Slot α} {j : Nat} (h : Marked slots slots')
    (hj : slots[j]? = some slot) (hslot : slot.entry = none) : slots'[j]? = some slot := by
  rcases h j with hj' | hj'
  . rw [hj', hj]
  rw [hj', hj]
  cases slot with
  | free => rfl
  | removed => rfl
  | live => contradiction

theorem exists_live {x : α} {c : Bool} {j : Nat} (h : Marked slots slots')
    (hj : slots'[j]? = some (.live c x)) : ∃ c', slots[j]? = some (.live c' x) := by
  rcases h j with hj' | hj'
  . exact ⟨c, hj' ▸ hj⟩
  rw [hj] at hj'
  cases hslot : slots[j]? with
  | none =>
    rw [hslot] at hj'
    contradiction
  | some slot =>
    rw [hslot] at hj'
    cases slot with
    | free => injection hj' with hj'; contradiction
    | removed => injection hj' with hj'; contradiction
    | live c' x' =>
      injection hj' with hj'
      injection hj' with _ hx
      exact ⟨c', by rw [hx]⟩

theorem passed {j : Nat} (h : Marked slots slots') (hj : Passed slots j) : Passed slots' j := by
  obtain ⟨slot, hslot, hpassed⟩ := hj
  rcases h j with hj | hj
  . exact ⟨slot, by rw [hj, hslot], hpassed⟩
  refine ⟨slot.mark, by rw [hj, hslot]; rfl, ?_⟩
  cases slot with
  | free => exact hpassed
  | removed => rfl
  | live => rfl

theorem reached {path : Nat → Nat} {j : Nat} (h : Marked slots slots') (hj : Reached slots path j)
    : Reached slots' path j := by
  obtain ⟨i, hi, hpassed⟩ := hj
  exact ⟨i, hi, fun i' hi' => h.passed (hpassed i' hi')⟩

theorem reachable (h : Marked slots slots') (hreach : Reachable path slots)
    : Reachable path slots' := by
  intro j c x hj
  obtain ⟨c', hj⟩ := h.exists_live hj
  exact h.reached (hreach j c' x hj)

end Marked

section Reachable

variable {slots : List (Slot α)} {path : α → Nat → Nat} {i j : Nat} {old : Slot α} {x : α}

theorem Passed.set {new : Slot α} (hj : slots[j]? = some old) (hkeep : old.isPassed → new.isPassed)
    (h : Passed slots i) : Passed (slots.set j new) i := by
  obtain ⟨slot, hslot, hpassed⟩ := h
  by_cases heq : j = i
  . subst heq
    rw [hj, Option.some.injEq] at hslot
    subst hslot
    exact ⟨new, Lists.getElem?_set_eq hj new, hkeep hpassed⟩
  . exact ⟨slot, by rw [List.getElem?_set_ne heq, hslot], hpassed⟩

theorem Reached.set {new : Slot α} {path : Nat → Nat} (hj : slots[j]? = some old)
    (hkeep : old.isPassed → new.isPassed) (h : Reached slots path i)
    : Reached (slots.set j new) path i := by
  obtain ⟨n, hn, hpassed⟩ := h
  exact ⟨n, hn, fun n' hn' => (hpassed n' hn').set hj hkeep⟩

theorem Reachable.insert (h : Reachable path slots) (hj : slots[j]? = some old)
    (hold : old.entry = none) (hreached : Reached slots (path x) j)
    : Reachable path (slots.set j (.live old.isRemoved x)) := by
  have hkeep : old.isPassed → (Slot.live old.isRemoved x).isPassed := by
    cases old with
    | free => exact fun hold => absurd hold Bool.false_ne_true
    | removed => exact id
    | live => contradiction
  intro i c y hi
  by_cases heq : j = i
  . subst heq
    rw [Lists.getElem?_set_eq hj, Option.some.injEq] at hi
    injection hi with _ hx
    subst hx
    exact hreached.set hj hkeep
  . rw [List.getElem?_set_ne heq] at hi
    exact (h i c y hi).set hj hkeep

theorem Reachable.erase {c : Bool} (h : Reachable path slots) (hj : slots[j]? = some (.live c x))
    : Reachable path (slots.set j (if c then .removed else .free)) := by
  have hkeep : (Slot.live c x).isPassed → (if c then Slot.removed else .free : Slot α).isPassed := by
    cases c with
    | true => exact id
    | false => exact id
  intro i c' y hi
  by_cases heq : j = i
  . subst heq
    rw [Lists.getElem?_set_eq hj, Option.some.injEq] at hi
    split at hi <;> contradiction
  . rw [List.getElem?_set_ne heq] at hi
    exact (h i c' y hi).set hj hkeep

theorem Reachable.exists_before {c : Bool} {n : Nat} (h : Reachable path slots)
    (hj : slots[j]? = some (.live c x)) (hfree : slots[path x n]? = some .free)
    : ∃ i < n, path x i = j := by
  obtain ⟨i, hi, hpassed⟩ := h j c x hj
  refine ⟨i, ?_, hi⟩
  rcases Nat.lt_trichotomy i n with hlt | rfl | hgt
  . exact hlt
  . rw [hi, hj, Option.some.injEq] at hfree
    contradiction
  obtain ⟨slot, hslot, hpassed⟩ := hpassed n hgt
  rw [hfree, Option.some.injEq] at hslot
  subst hslot
  contradiction

theorem Reachable.replicate (path : α → Nat → Nat) (size : Nat)
    : Reachable path (List.replicate size .free) := by
  intro j c x hj
  have := eq_of_mem_replicate (mem_of_getElem? hj)
  contradiction

end Reachable

theorem entries_replicate (size : Nat) : entries (List.replicate size (.free : Slot α)) = [] := by
  unfold entries
  rw [filterMap_eq_nil_iff]
  intro slot hslot
  rw [eq_of_mem_replicate hslot]
  rfl

theorem removedCount_replicate (size : Nat)
    : removedCount (List.replicate size (.free : Slot α)) = 0 := by
  unfold removedCount
  rw [countP_eq_zero]
  intro slot hslot
  rw [eq_of_mem_replicate hslot]
  exact Bool.false_ne_true

theorem mem_entries {slots : List (Slot α)} {x : α}
    : x ∈ entries slots ↔ ∃ (j : Nat) (c : Bool), slots[j]? = some (.live c x) := by
  unfold entries
  rw [mem_filterMap]
  constructor
  . rintro ⟨slot, hslot, hx⟩
    obtain ⟨j, hj⟩ := List.getElem?_of_mem hslot
    cases slot with
    | free => contradiction
    | removed => contradiction
    | live c y =>
      injection hx with hx
      subst hx
      exact ⟨j, c, hj⟩
  . rintro ⟨j, c, hj⟩
    exact ⟨_, mem_of_getElem? hj, rfl⟩

end OpenAddressing
