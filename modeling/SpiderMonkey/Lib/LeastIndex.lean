import Mathlib.Data.Nat.Init

/-!
This module contains what a search for the least index with a property finds, and what it may pass over, and what a
search for the greatest one finds.
-/

structure IsLeastIndex (p : Nat → Prop) (start : Nat) (r : Option Nat) : Prop where
  found : ∀ n ∈ r, start ≤ n ∧ p n
  least : ∀ i, start ≤ i → p i → ∃ n ∈ r, n ≤ i

namespace IsLeastIndex

variable {p q : Nat → Prop} {start next : Nat} {r r' : Option Nat}

theorem here (h : p start) : IsLeastIndex p start (some start) where
  found n hn := by
    cases hn
    exact ⟨Nat.le_refl _, h⟩
  least i hi _ := ⟨start, rfl, hi⟩

theorem nowhere (h : ∀ i, start ≤ i → ¬p i) : IsLeastIndex p start none where
  found _ hn := nomatch hn
  least i hi hp := absurd hp (h i hi)

theorem skip (h : IsLeastIndex p next r) (hle : start ≤ next) (hno : ∀ i, start ≤ i → i < next → ¬p i)
    : IsLeastIndex p start r where
  found n hn := ⟨Nat.le_trans hle (h.found n hn).1, (h.found n hn).2⟩
  least i hi hp := h.least i (Nat.not_lt.mp fun hlt => hno i hi hlt hp) hp

theorem step (h : IsLeastIndex p (start + 1) r) (hno : ¬p start) : IsLeastIndex p start r := by
  apply h.skip (Nat.le_succ _)
  intro i hi hlt
  rwa [Nat.le_antisymm (Nat.le_of_lt_succ hlt) hi]

theorem congr (h : IsLeastIndex p start r) (heq : ∀ i, start ≤ i → (p i ↔ q i)) : IsLeastIndex q start r where
  found n hn := ⟨(h.found n hn).1, (heq n (h.found n hn).1).mp (h.found n hn).2⟩
  least i hi hq := h.least i hi ((heq i hi).mpr hq)

theorem shift (h : IsLeastIndex (fun i => p (next + i)) start r)
    : IsLeastIndex p (next + start) (r.map (next + ·)) where
  found n hn := by
    obtain ⟨m, hm, rfl⟩ := Option.map_eq_some_iff.mp hn
    exact ⟨Nat.add_le_add_left (h.found m hm).1 next, (h.found m hm).2⟩
  least i hi hp := by
    obtain ⟨j, rfl⟩ := Nat.exists_eq_add_of_le (Nat.le_trans (Nat.le_add_right _ _) hi)
    obtain ⟨m, hm, hle⟩ := h.least j (Nat.le_of_add_le_add_left hi) hp
    exact ⟨next + m, Option.map_eq_some_iff.mpr ⟨m, hm, rfl⟩, Nat.add_le_add_left hle next⟩

theorem mem_of_mem (h : IsLeastIndex p start r) (h' : IsLeastIndex p start r') (hn : n ∈ r) : n ∈ r' := by
  obtain ⟨m, hm, hle⟩ := h'.least n (h.found n hn).1 (h.found n hn).2
  obtain ⟨l, hl, hle'⟩ := h.least m (h'.found m hm).1 (h'.found m hm).2
  obtain rfl : n = l := Option.some.inj (Eq.trans (Eq.symm hn) hl)
  rwa [Nat.le_antisymm hle' hle]

theorem unique (h : IsLeastIndex p start r) (h' : IsLeastIndex p start r') : r = r' :=
  Option.ext fun _ => ⟨h.mem_of_mem h', h'.mem_of_mem h⟩

end IsLeastIndex

structure IsGreatestIndex (p : Nat → Prop) (start : Nat) (r : Option Nat) : Prop where
  found : ∀ n ∈ r, n ≤ start ∧ p n
  greatest : ∀ i ≤ start, p i → ∃ n ∈ r, i ≤ n

namespace IsGreatestIndex

variable {p : Nat → Prop} {start : Nat} {r : Option Nat}

theorem here (h : p start) : IsGreatestIndex p start (some start) where
  found n hn := by
    cases hn
    exact ⟨Nat.le_refl _, h⟩
  greatest i hi _ := ⟨start, rfl, hi⟩

theorem zero (hno : ¬p 0) : IsGreatestIndex p 0 none where
  found _ hn := nomatch hn
  greatest _ hi hp := absurd (Nat.eq_zero_of_le_zero hi ▸ hp) hno

theorem step (h : IsGreatestIndex p start r) (hno : ¬p (start + 1)) : IsGreatestIndex p (start + 1) r where
  found n hn := ⟨Nat.le_succ_of_le (h.found n hn).1, (h.found n hn).2⟩
  greatest i hi hp := by
    rcases Nat.lt_or_eq_of_le hi with hlt | rfl
    . exact h.greatest i (Nat.le_of_lt_succ hlt) hp
    . exact absurd hp hno

end IsGreatestIndex
