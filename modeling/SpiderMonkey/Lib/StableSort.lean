import Mathlib.Data.List.Perm.Basic

/-!
This module contains that a total preorder has only one stable sort of a list.
-/

namespace StableSort

open List Bool

variable {α β : Type} {le : α → α → Bool} {l l' m m' : List α}

structure TotalPreorder (le : α → α → Bool) : Prop where
  trans : ∀ a b c, le a b → le b c → le a c
  total : ∀ a b, le a b || le b a

def equiv (le : α → α → Bool) (a b : α) : Bool := le a b && le b a

-- Elements that are equivalent stay in their order.
structure IsStableSort (le : α → α → Bool) (l l' : List α) : Prop where
  perm : l'.Perm l
  sorted : l'.Pairwise (le · ·)
  stable : ∀ k, l'.filter (equiv le k) = l.filter (equiv le k)

theorem isStableSort_self (h : l.Pairwise (le · ·)) : IsStableSort le l l := ⟨.refl l, h, fun _ => rfl⟩

theorem IsStableSort.length_eq (h : IsStableSort le l l') : l'.length = l.length := h.perm.length_eq

theorem IsStableSort.append_trans (h : IsStableSort le l l') (h' : IsStableSort le (l' ++ m) m') : IsStableSort le (l ++ m) m' where
  perm := h'.perm.trans (h.perm.append_right m)
  sorted := h'.sorted
  stable k := by rw [h'.stable, filter_append, h.stable, filter_append]

theorem append_isStableSort (hl : IsStableSort le l l') (hm : IsStableSort le m m') (hle : ∀ a ∈ l', ∀ b ∈ m', le a b)
    : IsStableSort le (l ++ m) (l' ++ m') where
  perm := hl.perm.append hm.perm
  sorted := pairwise_append.mpr ⟨hl.sorted, hm.sorted, hle⟩
  stable k := by rw [filter_append, hl.stable, hm.stable, filter_append]

theorem singleton_isStableSort (a : α) : IsStableSort le [a] [a] := ⟨.refl _, pairwise_singleton _ a, fun _ => rfl⟩

theorem mergeSort_congr (h : ∀ a ∈ l, ∀ b ∈ l, le a b = le' a b)
    : l.mergeSort le = l.mergeSort le' := by
  have hmap := map_mergeSort (f := id) h
  rwa [map_id, map_id] at hmap

namespace TotalPreorder

theorem comap (h : TotalPreorder le) (f : β → α) : TotalPreorder fun x y => le (f x) (f y) where
  trans x y z := h.trans (f x) (f y) (f z)
  total x y := h.total (f x) (f y)

theorem flip (h : TotalPreorder le) : TotalPreorder fun a b => le b a where
  trans a b c hab hbc := h.trans c b a hbc hab
  total a b := h.total b a

theorem refl (h : TotalPreorder le) (a : α) : le a a := by
  have htotal := h.total a a
  rwa [Bool.or_self] at htotal

theorem le_of_not (h : TotalPreorder le) (hnot : ¬le a b) : le b a := by
  have htotal := h.total a b
  rwa [eq_false_iff.mpr hnot, Bool.false_or] at htotal

theorem equiv_refl (h : TotalPreorder le) (a : α) : equiv le a a := by
  rw [equiv, h.refl]
  rfl

theorem not_equiv_of_not (h : TotalPreorder le) (hnot : ¬le a b) (hk : equiv le k b) : ¬equiv le k a := by
  intro ha
  rw [equiv, and_eq_true] at hk ha
  exact hnot (h.trans a k b ha.2 hk.1)

theorem pairwise_filter (h : TotalPreorder le) (k : α) (l : List α) : (l.filter (equiv le k)).Pairwise (le · ·) := by
  apply pairwise_of_forall_mem_list
  intro a ha b hb
  have hka := (mem_filter.mp ha).2
  have hkb := (mem_filter.mp hb).2
  rw [equiv, and_eq_true] at hka hkb
  exact h.trans a k b hka.2 hkb.1

theorem eq_of_filter (h : TotalPreorder le) (hl : l.Pairwise (le · ·)) (hl' : l'.Pairwise (le · ·))
    (hfilter : ∀ k, l.filter (equiv le k) = l'.filter (equiv le k)) : l = l' := by
  induction l generalizing l' with
  | nil =>
    cases l' with
    | nil => rfl
    | cons b l' =>
      have hb := hfilter b
      rw [filter_cons, if_pos (h.equiv_refl b)] at hb
      exact absurd hb.symm (cons_ne_nil _ _)
  | cons a l ih =>
    have ha := hfilter a
    rw [filter_cons, if_pos (h.equiv_refl a)] at ha
    cases l' with
    | nil => exact absurd ha (cons_ne_nil _ _)
    | cons b l' =>
      have hb := hfilter b
      rw [filter_cons (x := b), if_pos (h.equiv_refl b)] at hb
      have hmem : a ∈ b :: l' := mem_of_mem_filter (ha ▸ mem_cons_self)
      have hmem' : b ∈ a :: l := mem_of_mem_filter (hb ▸ mem_cons_self)
      have hba : le b a := by
        rcases mem_cons.mp hmem with rfl | hmem
        . exact h.refl a
        . exact rel_of_pairwise_cons hl' hmem
      have hab : le a b := by
        rcases mem_cons.mp hmem' with rfl | hmem'
        . exact h.refl b
        . exact rel_of_pairwise_cons hl hmem'
      have hequiv : equiv le a b = true := and_eq_true_iff.mpr ⟨hab, hba⟩
      rw [filter_cons, if_pos hequiv] at ha
      obtain ⟨rfl, _⟩ := cons_eq_cons.mp ha
      refine congrArg (List.cons a) (ih hl.of_cons hl'.of_cons fun k => ?_)
      have hk := hfilter k
      rw [filter_cons, filter_cons] at hk
      split at hk
      . exact (cons_eq_cons.mp hk).2
      . exact hk

theorem mergeSort_isStableSort (h : TotalPreorder le) (l : List α) : IsStableSort le l (l.mergeSort le) where
  perm := mergeSort_perm l le
  sorted := pairwise_mergeSort h.trans h.total l
  stable k := by
    have hsub := sublist_mergeSort h.trans h.total (h.pairwise_filter k l) filter_sublist
    have hfilter := hsub.filter (equiv le k)
    simp only [filter_filter, Bool.and_self] at hfilter
    have hlength := ((mergeSort_perm l le).filter (equiv le k)).length_eq
    exact (hfilter.eq_of_length hlength.symm).symm

theorem eq_mergeSort (h : TotalPreorder le) (hsort : IsStableSort le l l') : l' = l.mergeSort le := by
  have hmergeSort := h.mergeSort_isStableSort l
  exact h.eq_of_filter hsort.sorted hmergeSort.sorted fun k => (hsort.stable k).trans (hmergeSort.stable k).symm

theorem filter_merge (h : TotalPreorder le) (hl : l.Pairwise (le · ·)) (l' : List α) (k : α)
    : (l.merge l' le).filter (equiv le k) = l.filter (equiv le k) ++ l'.filter (equiv le k) := by
  induction l generalizing l' with
  | nil => rw [nil_merge, filter_nil, nil_append]
  | cons a l ih =>
    induction l' with
    | nil => rw [merge_right, filter_nil, append_nil]
    | cons b l' ih' =>
      rw [cons_merge_cons]
      split
      next =>
        rw [filter_cons, filter_cons (x := a), ih hl.tail]
        split <;> rfl
      next hnot =>
        rw [filter_cons, ih', filter_cons (x := b)]
        split
        next hkb =>
          have hnil : (a :: l).filter (equiv le k) = [] := by
            rw [filter_eq_nil_iff]
            intro x hx
            apply h.not_equiv_of_not _ hkb
            intro hxb
            apply hnot
            rcases mem_cons.mp hx with rfl | hx
            . exact hxb
            . exact h.trans a x b (rel_of_pairwise_cons hl hx) hxb
          rw [hnil, nil_append, nil_append]
        next => rfl

theorem isStableSort_swap (h : TotalPreorder le) (hnot : ¬le b a) (hsort : IsStableSort le (l ++ [a, b]) l')
    : IsStableSort le (l ++ [b, a]) l' where
  perm := hsort.perm.trans ((List.Perm.swap b a []).append_left l)
  sorted := hsort.sorted
  stable k := by
    have hpair : [a, b].filter (equiv le k) = [b, a].filter (equiv le k) := by
      by_cases ha : equiv le k a
      . have hb := h.not_equiv_of_not hnot ha
        rw [filter_cons, if_pos ha, filter_cons, if_neg hb, filter_cons, if_neg hb, filter_cons, if_pos ha]
      . rw [filter_cons, if_neg ha, filter_cons, filter_cons, filter_cons, if_neg ha]
    rw [hsort.stable, filter_append, hpair, filter_append]

theorem le_getLast? (h : TotalPreorder le) (hl : l.Pairwise (le · ·)) (ha : a ∈ l) (hx : l.getLast? = some x)
    : le a x := by
  obtain ⟨before, rfl⟩ := List.getLast?_eq_some_iff.mp hx
  rcases mem_append.mp ha with ha | ha
  . exact (pairwise_append.mp hl).2.2 a ha x (mem_singleton_self x)
  . rw [mem_singleton.mp ha]
    exact h.refl x

theorem head?_le (h : TotalPreorder le) (hl : l.Pairwise (le · ·)) (hb : b ∈ l) (hy : l.head? = some y)
    : le y b := by
  obtain ⟨rest, rfl⟩ := List.head?_eq_some_iff.mp hy
  rcases mem_cons.mp hb with rfl | hb
  . exact h.refl b
  . exact rel_of_pairwise_cons hl hb

theorem merge_isStableSort (h : TotalPreorder le) (hl : IsStableSort le l l') (hm : IsStableSort le m m')
    : IsStableSort le (l ++ m) (l'.merge m' le) where
  perm := (merge_perm_append le).trans (hl.perm.append hm.perm)
  sorted := pairwise_merge h.trans h.total l' m' hl.sorted hm.sorted
  stable k := by rw [h.filter_merge hl.sorted, hl.stable, hm.stable, filter_append]

theorem mergeSort_eq_append (h : TotalPreorder le) (hbelow : ∀ a b, p a → ¬p b → le a b ∧ ¬le b a) (l : List α)
    : l.mergeSort le = (l.filter p).mergeSort le ++ (l.filter fun a => !p a).mergeSort le := by
  have hleft := h.mergeSort_isStableSort (l.filter p)
  have hright := h.mergeSort_isStableSort (l.filter fun a => !p a)
  refine (h.eq_mergeSort ⟨?_, ?_, ?_⟩).symm
  . exact (hleft.perm.append hright.perm).trans (filter_append_perm p l)
  . refine pairwise_append.mpr ⟨hleft.sorted, hright.sorted, fun a ha b hb => ?_⟩
    have hpa := (mem_filter.mp (hleft.perm.mem_iff.mp ha)).2
    have hpb := (mem_filter.mp (hright.perm.mem_iff.mp hb)).2
    rw [not_eq_true'] at hpb
    exact (hbelow a b hpa (eq_false_iff.mp hpb)).1
  intro k
  rw [filter_append, hleft.stable, hright.stable, filter_filter, filter_filter]
  have hsame (a : α) (hk : equiv le k a) : p a = p k := by
    rw [equiv, and_eq_true] at hk
    by_cases hpa : p a <;> by_cases hpk : p k
    . rw [hpa, hpk]
    . exact absurd hk.1 (hbelow a k hpa hpk).2
    . exact absurd hk.2 (hbelow k a hpk hpa).2
    . rw [eq_false_iff.mpr hpa, eq_false_iff.mpr hpk]
  have hside (q : α → Bool) (hq : ∀ a, equiv le k a → q a = q k)
      : l.filter (fun a => equiv le k a && q a) = if q k then l.filter (equiv le k) else [] := by
    by_cases hqk : q k
    . rw [if_pos hqk]
      apply filter_congr
      intro a _
      by_cases hk : equiv le k a
      . rw [hk, hq a hk, hqk]
        rfl
      . rw [eq_false_iff.mpr hk, Bool.false_and]
    . rw [if_neg hqk]
      apply filter_eq_nil_iff.mpr
      intro a _ hboth
      rw [and_eq_true] at hboth
      exact hqk (hq a hboth.1 ▸ hboth.2)
  rw [hside p hsame, hside (fun a => !p a) fun a hk => congrArg (! ·) (hsame a hk)]
  cases p k
  . exact nil_append _
  . exact append_nil _

end TotalPreorder

end StableSort
