import Mathlib.Data.List.Chain
import Mathlib.Data.List.Perm.Basic

/-!
This module contains facts about lists that the standard library does not have.
-/

namespace Lists

open List

variable {α : Type} {l : List α}

theorem find?_eraseP_perm (h : l.find? p = some a)
    : (a :: l.eraseP p).Perm l := by
  induction l with
  | nil => cases h
  | cons b l ih =>
    by_cases hb : p b = true
    . rw [List.find?_cons_of_pos hb] at h
      cases h
      rw [eraseP_cons_of_pos hb]
    rw [List.find?_cons_of_neg hb] at h
    rw [eraseP_cons_of_neg hb]
    exact (List.Perm.swap _ _ _).trans ((ih h).cons b)

theorem getElem?_set_eq {i : Nat} (h : l[i]? = some a) (b : α)
    : (l.set i b)[i]? = some b := by
  obtain ⟨hlt, -⟩ := List.getElem?_eq_some_iff.mp h
  rw [List.getElem?_set_self hlt]

theorem countP_set_add {i : Nat} (p : α → Bool) (h : l[i]? = some a) (b : α)
    : (l.set i b).countP p + (if p a then 1 else 0) = l.countP p + (if p b then 1 else 0) := by
  obtain ⟨hlt, rfl⟩ := List.getElem?_eq_some_iff.mp h
  have hle : p l[i] → 0 < l.countP p := fun ha => countP_pos_iff.mpr ⟨l[i], getElem_mem hlt, ha⟩
  rw [countP_set hlt]
  cases ha : p l[i] with
  | true =>
    have := hle ha
    simp only [if_true]
    omega
  | false =>
    simp only [Bool.false_eq_true, if_false]
    omega

theorem filterMap_set_perm {i : Nat} (h : l[i]? = some a)
    (b : α) : ((f a).toList ++ (l.set i b).filterMap f).Perm ((f b).toList ++ l.filterMap f) := by
  obtain ⟨hlt, rfl⟩ := List.getElem?_eq_some_iff.mp h
  have hsplit (c : α) : ((c :: l.eraseIdx i).filterMap f).Perm ((f c).toList ++ (l.eraseIdx i).filterMap f) := by
    rw [filterMap_cons]
    cases f c <;> exact List.Perm.refl _
  have hold : (l.filterMap f).Perm ((f l[i]).toList ++ (l.eraseIdx i).filterMap f) :=
    ((getElem_cons_eraseIdx_perm hlt).filterMap _).symm.trans (hsplit _)
  have hnew : ((l.set i b).filterMap f).Perm ((f b).toList ++ (l.eraseIdx i).filterMap f) :=
    ((set_perm_cons_eraseIdx hlt b).filterMap _).trans (hsplit _)
  have hswap : ((f l[i]).toList ++ ((f b).toList ++ (l.eraseIdx i).filterMap f)).Perm
      ((f b).toList ++ ((f l[i]).toList ++ (l.eraseIdx i).filterMap f)) := by
    rw [← append_assoc, ← append_assoc]
    exact perm_append_comm.append_right _
  exact (hnew.append_left _).trans (hswap.trans (hold.symm.append_left _))

theorem mapM_eq_some_map (h : ∀ a ∈ l, f a = some (g a))
    : l.mapM f = some (l.map g) := by
  induction l with
  | nil => rfl
  | cons a l ih =>
    rw [mapM_cons, h a mem_cons_self, ih fun b hb => h b (mem_cons_of_mem a hb)]
    rfl

theorem modify_concat (f : α → α) (l : List α) (a : α) : (l ++ [a]).modify l.length f = l ++ [f a] := by
  rw [modify_eq_take_cons_drop (by rw [length_append, length_singleton]; exact Nat.lt_succ_self _)]
  simp

theorem getElem?_concat_cases {i : Nat} (h : (l ++ [a])[i]? = some b)
    : i < l.length ∧ l[i]? = some b ∨ i = l.length ∧ b = a := by
  rw [List.getElem?_append] at h
  split at h
  next hlt => exact .inl ⟨hlt, h⟩
  next hge =>
    obtain ⟨hlt, -⟩ := List.getElem?_eq_some_iff.mp h
    rw [length_singleton] at hlt
    obtain rfl : i = l.length := by omega
    rw [Nat.sub_self, List.getElem?_cons_zero, Option.some_inj] at h
    exact .inr ⟨rfl, h.symm⟩

theorem concat_prefix_cons {done : List α} (h : done ++ [a] <+: b :: l)
    : done = [] ∧ a = b ∨ ∃ rest, done = b :: rest ∧ rest ++ [a] <+: l := by
  cases done with
  | nil => exact .inl ⟨rfl, (cons_prefix_cons.mp h).1⟩
  | cons c rest =>
    obtain ⟨rfl, hrest⟩ := cons_prefix_cons.mp h
    exact .inr ⟨rest, rfl, hrest⟩

theorem chain_next {R : α → α → Prop} {above : List α} {root x : α}
    (h : List.IsChain R (above ++ [root])) (hx : x ∈ above) : ∃ y ∈ above ++ [root], R x y := by
  obtain ⟨before, after, rfl⟩ := append_of_mem hx
  rw [append_assoc, isChain_append] at h
  cases after with
  | nil =>
    refine ⟨root, by simp, ?_⟩
    simpa using h.2.1
  | cons y after =>
    refine ⟨y, by simp, ?_⟩
    have := h.2.1
    simp only [cons_append, isChain_cons_cons] at this
    exact this.1

section

variable {α : Type} {p : α → Bool} {l : List α} {i k : Nat}

theorem filter_take_of_gap (hik : i ≤ k) (hgap : ∀ j (h : j < l.length), i ≤ j → j < k → p l[j] = false)
    : (l.take k).filter p = (l.take i).filter p := by
  induction k, hik using Nat.le_induction with
  | base => rfl
  | succ k hik ih =>
    rw [← ih (fun j h hij hjk => hgap j h hij (by omega))]
    by_cases hk : k < l.length
    . rw [take_succ_eq_append_getElem hk, filter_append]
      simp [hgap k hk hik (by omega)]
    . rw [take_of_length_le (by omega), take_of_length_le (by omega)]

theorem filter_drop_of_gap (hik : i ≤ k) (hgap : ∀ j (h : j < l.length), i ≤ j → j < k → p l[j] = false)
    : (l.drop k).filter p = (l.drop i).filter p := by
  induction k, hik using Nat.le_induction with
  | base => rfl
  | succ k hik ih =>
    rw [← ih (fun j h hij hjk => hgap j h hij (by omega))]
    by_cases hk : k < l.length
    . rw [drop_eq_getElem_cons hk, filter_cons_of_neg]
      simp [hgap k hk hik (by omega)]
    . rw [drop_of_length_le (by omega), drop_of_length_le (by omega)]

theorem length_filter_modify (hj : j < l.length) (hp : p l[j] = true)
    (hf : p (f l[j]) = false) : ((l.modify j f).filter p).length + 1 = (l.filter p).length := by
  have hsplit : l = l.take j ++ l[j] :: l.drop (j + 1) := by simp
  have hmodify : l.modify j f = l.take j ++ f l[j] :: l.drop (j + 1) := by
    rw [modify_eq_take_cons_drop hj]
  rw [hmodify]
  conv => rhs; rw [hsplit]
  simp only [filter_append, filter_cons, hp, hf, length_append]
  simp
  omega

theorem modify_eq_map (h : ∀ k (hk : k < l.length), p l[k] = true ↔ k = j)
    : l.modify j f = l.map (fun x => if p x then f x else x) := by
  apply ext_getElem
  . simp
  intro k hk hk'
  rw [length_modify] at hk
  rw [getElem_modify, getElem_map]
  by_cases hjk : j = k
  . rw [if_pos hjk, if_pos ((h k hk).mpr hjk.symm)]
  . rw [if_neg hjk, if_neg (fun hp => hjk ((h k hk).mp hp).symm)]

end

theorem count_filterMap_set {β : Type} [DecidableEq β] {f : α → Option β} {i : Nat}
    (h : l[i]? = some x) (b : β)
    : ((l.set i y).filterMap f).count b + (f x).toList.count b = (l.filterMap f).count b + (f y).toList.count b := by
  induction l generalizing i with
  | nil => simp at h
  | cons a l ih =>
    have hcons (z : α) (l : List α) : ((z :: l).filterMap f).count b
        = (f z).toList.count b + (l.filterMap f).count b := by
      rw [filterMap_cons]
      split
      next hz => simp only [hz, Option.toList_none, count_nil, Nat.zero_add]
      next hz =>
        simp only [hz, Option.toList_some, count_cons, count_nil]
        omega
    cases i with
    | zero =>
      rw [List.getElem?_cons_zero, Option.some_inj] at h
      subst h
      rw [set_cons_zero, hcons, hcons]
      omega
    | succ i =>
      rw [List.getElem?_cons_succ] at h
      rw [set_cons_succ, hcons, hcons]
      have := ih h
      omega

end Lists
