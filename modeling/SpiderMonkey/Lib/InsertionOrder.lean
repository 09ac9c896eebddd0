import Mathlib.Data.List.Pairwise

/-!
This module contains collections that are iterated in insertion order while they change: what any
number of iterators have visited and what is still ahead of them.
-/

-- Every entry carries the number of its insertion. `visited` is what an iterator has returned so
-- far, each entry as it was at that time.
structure InsertionOrder (T : Type) where
  entries : List (Nat × T)
  next : Nat
  visited : Nat → List (Nat × T)

namespace InsertionOrder

open List

variable {T : Type}

def empty : InsertionOrder T := ⟨[], 0, fun _ => []⟩

def put (same : T → Bool) (e : T) (c : InsertionOrder T) : InsertionOrder T :=
  if c.entries.any (fun x => same x.2) then
    { c with entries := c.entries.map (fun x => if same x.2 then (x.1, e) else x) }
  else
    { c with
        entries := c.entries ++ [(c.next, e)]
        next := c.next + 1 }

def removeIf (same : T → Bool) (c : InsertionOrder T) : InsertionOrder T :=
  { c with entries := c.entries.filter (fun x => !same x.2) }

def clear (c : InsertionOrder T) : InsertionOrder T :=
  { c with entries := [] }

def start (id : Nat) (c : InsertionOrder T) : InsertionOrder T :=
  { c with visited := Function.update c.visited id [] }

def fork (id other : Nat) (c : InsertionOrder T) : InsertionOrder T :=
  { c with visited := Function.update c.visited id (c.visited other) }

def ahead (c : InsertionOrder T) (id : Nat) : List (Nat × T) :=
  c.entries.filter (fun x => !((c.visited id).map Prod.fst).contains x.1)

def advance (id : Nat) (c : InsertionOrder T) : InsertionOrder T :=
  match c.ahead id with
  | [] => c
  | x :: _ => { c with visited := Function.update c.visited id (c.visited id ++ [x]) }

structure Ordered (c : InsertionOrder T) : Prop where
  entries_sorted : (c.entries.map Prod.fst).Pairwise (· < ·)
  entries_lt : ∀ x ∈ c.entries, x.1 < c.next
  visited_sorted : ∀ id, ((c.visited id).map Prod.fst).Pairwise (· < ·)
  visited_lt : ∀ id, ∀ x ∈ c.visited id, x.1 < c.next
  visited_lt_ahead : ∀ id, ∀ x ∈ c.visited id, ∀ y ∈ c.ahead id, x.1 < y.1

variable {c : InsertionOrder T} {id : Nat}

theorem mem_ahead
    : x ∈ c.ahead id ↔ x ∈ c.entries ∧ ∀ y ∈ c.visited id, y.1 ≠ x.1 := by
  unfold ahead
  rw [mem_filter, Bool.not_eq_true', ← Bool.not_eq_true, contains_iff_mem, mem_map]
  simp only [not_exists, not_and]

theorem empty_ordered : (empty : InsertionOrder T).Ordered := by
  constructor <;> simp [empty]

theorem put_ordered {same : T → Bool} (h : c.Ordered)
    : (c.put same e).Ordered := by
  unfold put
  split
  . have hfst : ∀ x : Nat × T, (if same x.2 then (x.1, e) else x).1 = x.1 := by
      intro x
      split <;> rfl
    constructor
    . have hmap : (c.entries.map (fun x => if same x.2 then (x.1, e) else x)).map Prod.fst
          = c.entries.map Prod.fst := by
        rw [map_map]
        exact map_congr_left (fun x _ => hfst x)
      rw [hmap]
      exact h.entries_sorted
    . intro x hx
      obtain ⟨y, hy, rfl⟩ := mem_map.mp hx
      rw [hfst]
      exact h.entries_lt y hy
    . exact h.visited_sorted
    . exact h.visited_lt
    . intro id x hx y hy
      obtain ⟨hy, hvisited⟩ := mem_ahead.mp hy
      obtain ⟨z, hz, rfl⟩ := mem_map.mp hy
      rw [hfst] at hvisited ⊢
      exact h.visited_lt_ahead id x hx z (mem_ahead.mpr ⟨hz, hvisited⟩)
  constructor
  . rw [map_append, pairwise_append]
    refine ⟨h.entries_sorted, by simp, ?_⟩
    intro x hx y hy
    obtain ⟨z, hz, rfl⟩ := mem_map.mp hx
    simp only [map_cons, map_nil, mem_singleton] at hy
    rw [hy]
    exact h.entries_lt z hz
  . intro x hx
    dsimp only
    rw [mem_append, mem_singleton] at hx
    cases hx with
    | inl hx => have := h.entries_lt x hx; omega
    | inr hx => simp [hx]
  . exact h.visited_sorted
  . intro id x hx
    have := h.visited_lt id x hx
    dsimp only
    omega
  . intro id x hx y hy
    obtain ⟨hy, hvisited⟩ := mem_ahead.mp hy
    rw [mem_append, mem_singleton] at hy
    cases hy with
    | inl hy => exact h.visited_lt_ahead id x hx y (mem_ahead.mpr ⟨hy, hvisited⟩)
    | inr hy =>
      rw [hy]
      exact h.visited_lt id x hx

theorem Ordered.sublist {entries : List (Nat × T)} (h : c.Ordered)
    (hsub : entries.Sublist c.entries) : ({ c with entries := entries }).Ordered := by
  constructor
  . exact h.entries_sorted.sublist (hsub.map _)
  . intro x hx
    exact h.entries_lt x (hsub.subset hx)
  . exact h.visited_sorted
  . exact h.visited_lt
  . intro id x hx y hy
    obtain ⟨hy, hvisited⟩ := mem_ahead.mp hy
    exact h.visited_lt_ahead id x hx y (mem_ahead.mpr ⟨hsub.subset hy, hvisited⟩)

theorem removeIf_ordered {same : T → Bool} (h : c.Ordered)
    : (c.removeIf same).Ordered := h.sublist filter_sublist

theorem clear_ordered (h : c.Ordered) : c.clear.Ordered :=
  h.sublist (nil_sublist _)

theorem Ordered.update {visited : List (Nat × T)} (h : c.Ordered)
    (hsorted : (visited.map Prod.fst).Pairwise (· < ·)) (hlt : ∀ x ∈ visited, x.1 < c.next)
    (hahead : ∀ x ∈ visited, ∀ y ∈ c.entries, (∀ z ∈ visited, z.1 ≠ y.1) → x.1 < y.1)
    : ({ c with visited := Function.update c.visited id visited }).Ordered := by
  constructor
  . exact h.entries_sorted
  . exact h.entries_lt
  . intro id'
    by_cases hid : id' = id
    . rw [hid]
      simpa using hsorted
    . simpa [hid] using h.visited_sorted id'
  . intro id'
    by_cases hid : id' = id
    . rw [hid]
      simpa using hlt
    . simpa [hid] using h.visited_lt id'
  . intro id' x hx y hy
    obtain ⟨hy, hvisited⟩ := mem_ahead.mp hy
    by_cases hid : id' = id
    . rw [hid] at hx hvisited
      simp only [Function.update_self] at hx hvisited
      exact hahead x hx y hy hvisited
    . simp only [Function.update_of_ne hid] at hx hvisited
      exact h.visited_lt_ahead id' x hx y (mem_ahead.mpr ⟨hy, hvisited⟩)

theorem start_ordered (h : c.Ordered) : (c.start id).Ordered := by
  apply h.update <;> simp

theorem fork_ordered {other : Nat} (h : c.Ordered)
    : (c.fork id other).Ordered := by
  apply h.update
  . exact h.visited_sorted other
  . exact h.visited_lt other
  . intro x hx y hy hvisited
    exact h.visited_lt_ahead other x hx y (mem_ahead.mpr ⟨hy, hvisited⟩)

theorem advance_ordered (h : c.Ordered)
    : (c.advance id).Ordered := by
  unfold advance
  split
  . exact h
  next x rest hahead =>
  have hx : x ∈ c.ahead id := by
    rw [hahead]
    exact mem_cons_self
  apply h.update
  . rw [map_append, pairwise_append]
    refine ⟨h.visited_sorted id, by simp, ?_⟩
    intro n hn m hm
    obtain ⟨y, hy, rfl⟩ := mem_map.mp hn
    simp only [map_cons, map_nil, mem_singleton] at hm
    rw [hm]
    exact h.visited_lt_ahead id y hy x hx
  . intro y hy
    rw [mem_append, mem_singleton] at hy
    cases hy with
    | inl hy => exact h.visited_lt id y hy
    | inr hy =>
      rw [hy]
      exact h.entries_lt x (mem_ahead.mp hx).1
  intro y hy z hz hvisited
  have hz' : z ∈ c.ahead id :=
    mem_ahead.mpr ⟨hz, fun v hv => hvisited v (mem_append_left _ hv)⟩
  rw [mem_append, mem_singleton] at hy
  cases hy with
  | inl hy => exact h.visited_lt_ahead id y hy z hz'
  | inr hy =>
    rw [hy]
    have hsorted : ((c.ahead id).map Prod.fst).Pairwise (· < ·) :=
      h.entries_sorted.sublist (filter_sublist.map _)
    rw [hahead, map_cons, pairwise_cons] at hsorted
    rw [hahead, mem_cons] at hz'
    cases hz' with
    | inl hz' => exact absurd (by rw [hz']) (hvisited x (by simp))
    | inr hz' => exact hsorted.1 z.1 (mem_map_of_mem hz')

theorem ahead_put_replace {same : T → Bool}
    (h : c.entries.any (fun x => same x.2) = true) (id : Nat)
    : (c.put same e).ahead id = (c.ahead id).map (fun x => if same x.2 then (x.1, e) else x) := by
  unfold put
  rw [if_pos h]
  unfold ahead
  dsimp only
  rw [filter_map]
  congr 1
  apply filter_congr
  intro x _
  dsimp only [Function.comp_apply]
  split <;> rfl

theorem ahead_put_new {same : T → Bool} (hc : c.Ordered) (h : c.entries.any (fun x => same x.2) = false) (id : Nat)
    : (c.put same e).ahead id = c.ahead id ++ [(c.next, e)] := by
  have hnew : (((c.visited id).map Prod.fst).contains c.next) = false := by
    rw [← Bool.not_eq_true, contains_iff_mem, mem_map]
    rintro ⟨x, hx, heq⟩
    have := hc.visited_lt id x hx
    omega
  unfold put
  rw [if_neg (by rw [h]; exact Bool.false_ne_true)]
  unfold ahead
  dsimp only
  rw [filter_append]
  congr 1
  rw [filter_cons_of_pos]
  . rfl
  dsimp only
  rw [hnew]
  rfl

theorem ahead_removeIf (same : T → Bool) (c : InsertionOrder T) (id : Nat)
    : (c.removeIf same).ahead id = (c.ahead id).filter (fun x => !same x.2) := by
  unfold removeIf ahead
  dsimp only
  rw [filter_filter, filter_filter]
  apply filter_congr
  intro x _
  rw [Bool.and_comm]

theorem ahead_start_self (c : InsertionOrder T) (id : Nat) : (c.start id).ahead id = c.entries := by
  unfold start ahead
  simp

theorem ahead_fork_self (c : InsertionOrder T) (id other : Nat)
    : (c.fork id other).ahead id = c.ahead other := by
  unfold fork ahead
  simp

theorem ahead_start_of_ne (c : InsertionOrder T) (h : id' ≠ id)
    : (c.start id).ahead id' = c.ahead id' := by
  unfold start ahead
  simp [h]

theorem ahead_fork_of_ne (c : InsertionOrder T) (other : Nat) (h : id' ≠ id)
    : (c.fork id other).ahead id' = c.ahead id' := by
  unfold fork ahead
  simp [h]

theorem advance_entries (c : InsertionOrder T) (id : Nat) : (c.advance id).entries = c.entries := by
  unfold advance
  split <;> rfl

theorem advance_visited (h : (c.ahead id).head? = some x)
    : (c.advance id).visited = Function.update c.visited id (c.visited id ++ [x]) := by
  unfold advance
  split
  . next hnil =>
    rw [hnil] at h
    cases h
  next y _ hcons =>
  rw [hcons] at h
  cases h
  rfl

theorem ahead_advance_self (hc : c.Ordered)
    {rest : List (Nat × T)} (h : c.ahead id = x :: rest) : (c.advance id).ahead id = rest := by
  have hsorted : ((c.ahead id).map Prod.fst).Pairwise (· < ·) :=
    hc.entries_sorted.sublist (filter_sublist.map _)
  rw [h, map_cons, pairwise_cons] at hsorted
  have hsplit : (c.advance id).ahead id = (c.ahead id).filter (fun y => x.1 != y.1) := by
    unfold advance
    rw [h]
    dsimp only
    rw [← h]
    unfold ahead
    dsimp only
    rw [filter_filter]
    apply filter_congr
    intro y _
    simp only [Function.update_self, map_append, contains_eq_mem, mem_append]
    grind
  rw [hsplit, h, filter_cons_of_neg (by simp), filter_eq_self]
  intro y hy
  have := hsorted.1 y.1 (mem_map_of_mem hy)
  simp
  omega

theorem ahead_advance_of_ne (c : InsertionOrder T) (h : id' ≠ id)
    : (c.advance id).ahead id' = c.ahead id' := by
  unfold advance
  split
  . rfl
  . unfold ahead
    simp [h]

end InsertionOrder
