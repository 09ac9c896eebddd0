import Mathlib.Logic.Function.Basic

/-!
This module contains lists that are linked by pointers.
-/

namespace PointerList

variable {α : Type} {next next' : α → Option α}

-- Starting from `head`, following `next` visits the elements of the list and ends.
def IsList (next : α → Option α) (head : Option α) (l : List α) : Prop :=
  match l with
  | [] => head = none
  | v :: l => head = some v ∧ IsList next (next v) l

def follow (next : α → Option α) (rounds : Nat) (head : Option α) : List α :=
  match head, rounds with
  | none, _ => []
  | some _, 0 => []
  | some v, rounds + 1 => v :: follow next rounds (next v)

theorem IsList.head_eq {head : Option α} (h : IsList next head l) : head = l.head? := by
  cases l with
  | nil => exact h
  | cons v l => exact h.1

theorem IsList.append_right {head : Option α} (h : IsList next head (l ++ l'))
    : IsList next l'.head? l' := by
  induction l generalizing head with
  | nil =>
    have h' : IsList next head l' := h
    rw [← h'.head_eq]
    exact h'
  | cons v l ih => exact ih h.2

theorem IsList.congr {head : Option α} (h : IsList next head l)
    (hnext : ∀ v ∈ l, next' v = next v) : IsList next' head l := by
  induction l generalizing head with
  | nil => exact h
  | cons v l ih =>
    refine ⟨h.1, ?_⟩
    rw [hnext v (by simp)]
    apply ih h.2
    intro w hw
    exact hnext w (by simp [hw])

theorem IsList.update_of_not_mem [DecidableEq α] {head : Option α}
    (h : IsList next head l) (hv : v ∉ l) (target : Option α)
    : IsList (Function.update next v target) head l := by
  apply h.congr
  intro w hw
  apply Function.update_of_ne
  intro heq
  rw [heq] at hw
  exact hv hw

theorem IsList.push [DecidableEq α] {head : Option α} (h : IsList next head l)
    (hv : v ∉ l) : IsList (Function.update next v head) (some v) (v :: l) := by
  refine ⟨rfl, ?_⟩
  rw [Function.update_self]
  exact h.update_of_not_mem hv head

theorem IsList.follow_eq {head : Option α} (h : IsList next head l)
    (hrounds : l.length ≤ rounds) : follow next rounds head = l := by
  induction l generalizing head rounds with
  | nil =>
    rw [show head = none from h]
    unfold follow
    rfl
  | cons v l ih =>
    obtain ⟨rfl, hrest⟩ := h
    cases rounds with
    | zero => simp at hrounds
    | succ rounds =>
      unfold follow
      rw [ih hrest (by simpa using hrounds)]

end PointerList
