import Mathlib.Data.List.Nodup

/-!
This module contains parallel assignments: all sources are read before any destination is written.
An assignment is a pair of its source and its destination.
-/

namespace ParallelAssign

variable {L V : Type} [DecidableEq L]

def assign (ms : List (L × L)) (σ : L → V) : L → V :=
  match ms with
  | [] => σ
  | m :: ms => Function.update (assign ms σ) m.2 (σ m.1)

theorem assign_cons (m : L × L) (ms : List (L × L)) (σ : L → V)
    : assign (m :: ms) σ = Function.update (assign ms σ) m.2 (σ m.1) := rfl

theorem assign_of_not_mem (σ : L → V) (h : l ∉ ms.map Prod.snd)
    : assign ms σ l = σ l := by
  induction ms with
  | nil => rfl
  | cons m ms ih =>
    simp only [List.map_cons, List.mem_cons, not_or] at h
    rw [assign_cons, Function.update_of_ne h.1]
    exact ih h.2

theorem assign_of_mem (σ : L → V) (h : (ms.map Prod.snd).Nodup) (hm : m ∈ ms) : assign ms σ m.2 = σ m.1 := by
  induction ms with
  | nil => cases hm
  | cons m' ms ih =>
    simp only [List.map_cons, List.nodup_cons] at h
    rw [assign_cons]
    cases hm with
    | head => rw [Function.update_self]
    | tail _ hm =>
      have hne : m.2 ≠ m'.2 := by
        intro heq
        apply h.1
        rw [← heq]
        exact List.mem_map_of_mem hm
      rw [Function.update_of_ne hne]
      exact ih h.2 hm

end ParallelAssign
