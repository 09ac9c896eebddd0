import Mathlib.Order.CompletePartialOrder
import Mathlib.Order.Interval.Set.Disjoint
import Mathlib.Data.List.Perm.Subperm

/-!
This module contains regions that are cut from a stack of bytes, and the packings in which no two of them overlap.
-/

-- The region of `width` bytes that ends at `index`.
structure Region where
  index : Nat
  width : Nat
  alignment : Nat
deriving DecidableEq, Repr

namespace Region

def bytes (r : Region) : Set Nat := Set.Ioc (r.index - r.width) r.index

def Apart (r r' : Region) : Prop := Disjoint r.bytes r'.bytes

structure Placed (height : Nat) (r : Region) : Prop where
  width_le : r.width ≤ r.index
  index_le : r.index ≤ height
  aligned : r.alignment ∣ r.index

structure Packed (height : Nat) (l : List Region) : Prop where
  disjoint : l.Pairwise Apart
  placed : ∀ r ∈ l, r.Placed height

variable {r r' s : Region}

theorem Apart.symm (h : r.Apart r') : r'.Apart r := Disjoint.symm h

theorem apart_of_le (h : r'.index ≤ r.index - r.width) : r.Apart r' := by
  apply Set.Ioc_disjoint_Ioc.mpr
  rw [min_le_iff]
  right
  exact h.trans (Nat.le_max_left ..)

-- A part of a region is apart from every region that the whole is apart from.
theorem Apart.part (h : r.Apart r') (hlower : r.index - r.width ≤ s.index - s.width) (hupper : s.index ≤ r.index)
    : s.Apart r' :=
  Disjoint.mono_left (Set.Ioc_subset_Ioc hlower hupper) h

open List

namespace Packed

variable {height height' : Nat} {l l' : List Region} {r : Region}

theorem nil : Packed height [] := ⟨Pairwise.nil, by simp⟩

theorem subperm (h : Packed height l) (hsub : l' <+~ l) : Packed height l' := by
  obtain ⟨l'', hperm, hsub⟩ := hsub
  constructor
  . apply hperm.pairwise (h.disjoint.sublist hsub)
    exact Apart.symm
  . intro r hr
    exact h.placed r (hsub.subset (hperm.mem_iff.mpr hr))

theorem rise (h : Packed height l) (hle : height ≤ height') : Packed height' l := by
  constructor
  . exact h.disjoint
  intro r hr
  obtain ⟨hwidth, hindex, haligned⟩ := h.placed r hr
  exact ⟨hwidth, hindex.trans hle, haligned⟩

-- A region above the height overlaps no region below it.
theorem above (h : Packed height l) (hle : height + r.width ≤ r.index) (haligned : r.alignment ∣ r.index)
    : Packed r.index (r :: l) := by
  have hrise : Packed r.index l := by
    apply h.rise
    omega
  constructor
  . rw [pairwise_cons]
    constructor
    . intro r' hr'
      have hindex := (h.placed r' hr').index_le
      apply apart_of_le
      omega
    . exact h.disjoint
  intro r' hr'
  rcases mem_cons.mp hr' with rfl | hr'
  . constructor
    . omega
    . rfl
    . exact haligned
  . exact hrise.placed r' hr'

-- A region may be cut into two, which overlap neither each other nor any region that it did not overlap.
theorem split (lower upper : Region) (h : Packed height (r :: l)) (hupper : upper.index = r.index)
    (hlower : lower.index = r.index - upper.width) (hwidth : lower.width + upper.width = r.width)
    (haligned : upper.alignment ∣ upper.index) (haligned' : lower.alignment ∣ lower.index)
    : Packed height (upper :: lower :: l) := by
  obtain ⟨hrl, hl⟩ := pairwise_cons.mp h.disjoint
  have hr := h.placed r mem_cons_self
  have hle := hr.width_le
  have hindex := hr.index_le
  constructor
  . rw [pairwise_cons, pairwise_cons]
    refine ⟨?_, ?_, hl⟩
    . intro r' hr'
      rcases mem_cons.mp hr' with rfl | hr'
      . apply apart_of_le
        omega
      . apply (hrl r' hr').part <;> omega
    . intro r' hr'
      apply (hrl r' hr').part <;> omega
  . intro r' hr'
    rcases mem_cons.mp hr' with rfl | hr'
    . exact ⟨by omega, by omega, haligned⟩
    rcases mem_cons.mp hr' with rfl | hr'
    . exact ⟨by omega, by omega, haligned'⟩
    . exact h.placed r' (mem_cons_of_mem r hr')

end Packed

end Region
