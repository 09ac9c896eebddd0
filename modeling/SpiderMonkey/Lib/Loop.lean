import Mathlib.Data.Nat.Notation

/-!
This module contains the invariant rules for counted loops, that is for `Nat.fold` (a loop that
counts up) and `Nat.foldRev` (a loop that counts down), and the rule for a loop that runs until a round of it
yields a result.
-/

namespace Loop

theorem fold_inv {α : Type u} (n : Nat) (f : (i : Nat) → i < n → α → α) (init : α)
    (inv : Nat → α → Prop) (hinit : inv 0 init)
    (hstep : ∀ (i : Nat) (h : i < n) (a : α), inv i a → inv (i + 1) (f i h a))
    : inv n (Nat.fold n f init) := by
  induction n with
  | zero => simpa using hinit
  | succ n ih =>
    rw [Nat.fold_succ]
    apply hstep
    apply ih
    intro i h a
    apply hstep

theorem foldRev_inv {α : Type u} (n : Nat) (f : (i : Nat) → i < n → α → α) (init : α)
    (inv : Nat → α → Prop) (hinit : inv n init)
    (hstep : ∀ (i : Nat) (h : i < n) (a : α), inv (i + 1) a → inv i (f i h a))
    : inv 0 (Nat.foldRev n f init) := by
  induction n generalizing init with
  | zero => simpa using hinit
  | succ n ih =>
    rw [Nat.foldRev_succ]
    apply ih
    . apply hstep
      assumption
    . intro i h a
      apply hstep

section Until

variable {C R V : Type}

def runUntil (round : C → Option (C ⊕ R)) : Nat → C → Option R
  | 0, _ => none
  | rounds + 1, c =>
    match round c with
    | none => none
    | some (.inl c') => runUntil round rounds c'
    | some (.inr r) => some r

theorem runUntil_exact {G : Type} {round : C → Option (C ⊕ R)} {inv : C → G → Prop} {measure : C → Nat}
    {accepts : C → G → V → Prop} {returned : R → Prop} {succeeds : R → V → Prop}
    (hround : ∀ c g, inv c g → (∃ c' g', round c = some (.inl c') ∧ inv c' g' ∧ measure c' < measure c ∧
          ∀ v, accepts c g v ↔ accepts c' g' v) ∨
        ∃ r, round c = some (.inr r) ∧ returned r ∧ ∀ v, accepts c g v ↔ succeeds r v) {c : C} {g : G} (hc : inv c g)
    : ∃ r, (∀ rounds, measure c < rounds → runUntil round rounds c = some r) ∧ returned r ∧
        ∀ v, accepts c g v ↔ succeeds r v := by
  induction hm : measure c using Nat.strongRecOn generalizing c g with
  | ind m ih =>
    rcases hround c g hc with ⟨c', g', hrun, hc', hlt, hacc⟩ | ⟨r, hrun, hret, hacc⟩
    . obtain ⟨r, hr, hret, hsucc⟩ := ih (measure c') (hm ▸ hlt) hc' rfl
      refine ⟨r, ?_, hret, fun v => (hacc v).trans (hsucc v)⟩
      intro rounds hrounds
      obtain ⟨n, rfl⟩ := Nat.exists_eq_add_of_lt (Nat.zero_lt_of_lt hrounds)
      rw [Nat.zero_add, runUntil, hrun]
      exact hr n (by omega)
    . refine ⟨r, ?_, hret, hacc⟩
      intro rounds hrounds
      obtain ⟨n, rfl⟩ := Nat.exists_eq_add_of_lt (Nat.zero_lt_of_lt hrounds)
      rw [Nat.zero_add, runUntil, hrun]

end Until

end Loop
