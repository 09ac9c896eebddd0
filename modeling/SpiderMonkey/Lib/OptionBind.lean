/-!
This module contains what the steps of a computation that may have no result come down to.
-/

variable {α β : Type} {f : α → Option β}

theorem some_bind : (some a >>= f) = f a := rfl

theorem bind_eq_some : (x >>= f) = some b ↔ ∃ (a : α), x = some a ∧ f a = some b :=
  Option.bind_eq_some_iff
