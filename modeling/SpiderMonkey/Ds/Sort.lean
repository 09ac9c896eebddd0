import SpiderMonkey.Builtin.Lemmas.ArraySort
import SpiderMonkey.Ds.Impl.Sort
import SpiderMonkey.Lib.Ensures

/-!
This module contains that the merge sort stays within the arrays and ends whatever the comparator answers, that what it
leaves is a permutation, and that it sorts stably by a total preorder.
-/

namespace SpiderMonkey.InPlaceSort

open List
open Overwrite StableSort

section

variable {σ α : Type}

def NeverFails (c : Comparator σ α) : Prop := ∀ a b s, (c a b s).isSome

-- The comparator answers by an order, whatever its state is.
def Follows (c : Comparator σ α) (le : α → α → Bool) : Prop := ∀ a b s, ∃ s', c a b s = some (le a b, s')

variable {c : Comparator σ α} {array src dst before front rest m : List α} {x y : α}
variable {a b d i n lo run run1 run2 nelems fuel : Nat}

theorem lessOrEqual_yields (hc : NeverFails c) (x y : α)
    : Yields (lessOrEqual c x y) fun answer => ∀ le, Follows c le → answer = le x y := by
  constructor
  intro s
  obtain ⟨⟨answer, s'⟩, hanswer⟩ := Option.isSome_iff_exists.mp (hc x y s)
  refine ⟨answer, s', by rw [lessOrEqual, hanswer], ?_⟩
  intro le hle
  obtain ⟨s'', hle⟩ := hle x y s
  rw [hanswer, Option.some.injEq, Prod.mk.injEq] at hle
  exact hle.1

theorem read_eq (h : array[i]? = some x) : (read array i : Sorting σ α) = pure x := by
  rw [read, h]

theorem write_eq (h : i < array.length) (x : α) : (write array i x : Sorting σ (List α)) = pure (array.set i x) := by
  rw [write, if_pos h]

theorem slice_cons (h : array[i]? = some x) (n : Nat) : slice array i (n + 1) = x :: slice array (i + 1) n := by
  obtain ⟨hlt, rfl⟩ := List.getElem?_eq_some_iff.mp h
  unfold slice
  rw [drop_eq_getElem_cons hlt, take_succ_cons]

theorem overwrite_cons (h : d + 1 + xs.length ≤ dst.length) (x : α)
    : overwrite (dst.set d x) (d + 1) xs = overwrite dst d (x :: xs) := by
  rw [← overwrite_singleton (by omega)]
  exact overwrite_overwrite_above (by rw [length_singleton]; omega)

theorem CopyNonEmptyArray_eq (hn : n ≠ 0) (hsrc : a + n ≤ src.length) (hdst : d + n ≤ dst.length)
    : (CopyNonEmptyArray src dst a d n : Sorting σ (List α)) = pure (overwrite dst d (slice src a n)) := by
  induction n generalizing a d dst with
  | zero => exact absurd rfl hn
  | succ n ih =>
    have hx : src[a]? = some src[a] := List.getElem?_eq_getElem (by omega)
    have hlength := length_slice (l := src) (i := a + 1) (n := n) (by omega)
    rw [CopyNonEmptyArray, read_eq hx, pure_bind, write_eq (by omega), pure_bind, slice_cons hx]
    split
    next hlast =>
      subst hlast
      exact congrArg pure (overwrite_singleton (by omega)).symm
    next hmore => rw [ih hmore (by omega) (by rw [length_set]; omega), overwrite_cons (by omega)]

def Leaves (c : Comparator σ α) (l : List α) (sorted : (α → α → Bool) → List α) (m : List α) : Prop :=
  m.Perm l ∧ ∀ le, Follows c le → m = sorted le

theorem Leaves.length_eq {sorted : (α → α → Bool) → List α} (h : Leaves c l sorted m)
    : m.length = l.length :=
  h.1.length_eq

theorem mergeLoop_yields (hc : NeverFails c) (hrun1 : run1 ≠ 0) (hrun2 : run2 ≠ 0) (hfuel : run1 + run2 ≤ fuel)
    (ha : a + run1 ≤ src.length) (hb : b + run2 ≤ src.length) (hd : d + run1 + run2 ≤ dst.length)
    : Yields (mergeLoop c src fuel dst d a b run1 run2) fun dst' =>
        ∃ m, dst' = overwrite dst d m ∧ Leaves c (slice src a run1 ++ slice src b run2)
              (fun le => (slice src a run1).merge (slice src b run2) le) m := by
  induction fuel generalizing dst d a b run1 run2 with
  | zero => omega
  | succ fuel ih =>
    obtain ⟨run1, rfl⟩ := Nat.exists_eq_add_one_of_ne_zero hrun1
    obtain ⟨run2, rfl⟩ := Nat.exists_eq_add_one_of_ne_zero hrun2
    have hx : src[a]? = some src[a] := List.getElem?_eq_getElem (by omega)
    have hy : src[b]? = some src[b] := List.getElem?_eq_getElem (by omega)
    have hlength1 := length_slice (l := src) (i := a + 1) (n := run1) (by omega)
    have hlength2 := length_slice (l := src) (i := b + 1) (n := run2) (by omega)
    rw [mergeLoop, read_eq hx, pure_bind, read_eq hy, pure_bind, slice_cons hx, slice_cons hy, Nat.add_sub_cancel,
      Nat.add_sub_cancel]
    refine .bind (lessOrEqual_yields hc _ _) fun answer hanswer => .ite (fun htrue => ?_) fun hfalse => ?_
    . have hmerge (le : α → α → Bool) (hle : Follows c le) : le src[a] src[b] = true :=
        (hanswer le hle).symm.trans htrue
      rw [pure_bind, write_eq (by omega), pure_bind]
      refine .ite (fun hlast => ?_) fun hmore => ?_
      . have hnil : slice src (a + 1) run1 = [] := by
          rw [show run1 = 0 by omega]
          exact take_zero
        rw [CopyNonEmptyArray_eq (by omega) hb (by rw [length_set]; omega), slice_cons hy, hnil]
        refine .pure ⟨_, overwrite_cons (by rw [length_cons]; omega) _, .refl _, fun le hle => ?_⟩
        dsimp only
        rw [cons_merge_cons, if_pos (hmerge le hle), nil_merge]
      refine (ih hmore (by omega) (by omega) (by omega) hb (by rw [length_set]; omega)).mono ?_
      rintro dst' ⟨m, rfl, hm⟩
      have hlength := hm.length_eq
      rw [length_append, slice_cons hy, length_cons] at hlength
      refine ⟨src[a] :: m, overwrite_cons (by omega) _, ?_⟩
      rw [slice_cons hy] at hm
      refine ⟨hm.1.cons _, fun le hle => ?_⟩
      dsimp only
      rw [cons_merge_cons, if_pos (hmerge le hle)]
      exact congrArg (List.cons _) (hm.2 le hle)
    have hmerge (le : α → α → Bool) (hle : Follows c le) : ¬le src[a] src[b] = true :=
      fun h => hfalse ((hanswer le hle).trans h)
    rw [pure_bind, write_eq (by omega), pure_bind]
    refine .ite (fun hlast => ?_) fun hmore => ?_
    . have hnil : slice src (b + 1) run2 = [] := by
        rw [show run2 = 0 by omega]
        exact take_zero
      rw [CopyNonEmptyArray_eq (by omega) ha (by rw [length_set]; omega), slice_cons hx, hnil]
      refine .pure ⟨_, overwrite_cons (by rw [length_cons]; omega) _, ?_, fun le hle => ?_⟩
      . exact (perm_append_singleton src[b] (src[a] :: slice src (a + 1) run1)).symm
      . dsimp only
        rw [cons_merge_cons, if_neg (hmerge le hle), merge_right]
    refine (ih (by omega) hmore (by omega) ha (by omega) (by rw [length_set]; omega)).mono ?_
    rintro dst' ⟨m, rfl, hm⟩
    have hlength := hm.length_eq
    rw [length_append, slice_cons hx, length_cons] at hlength
    refine ⟨src[b] :: m, overwrite_cons (by omega) _, ?_⟩
    rw [slice_cons hx] at hm
    refine ⟨(hm.1.cons _).trans perm_middle.symm, fun le hle => ?_⟩
    dsimp only
    rw [cons_merge_cons, if_neg (hmerge le hle)]
    exact congrArg (List.cons _) (hm.2 le hle)

theorem getLast?_slice (hn : n ≠ 0) (h : i + n ≤ array.length) : (slice array i n).getLast? = array[i + n - 1]? := by
  rw [List.getLast?_eq_getElem?, length_slice h, getElem?_slice, if_pos (by omega), Nat.add_sub_assoc (by omega)]

theorem head?_slice (hn : n ≠ 0) : (slice array i n).head? = array[i]? := by
  rw [List.head?_eq_getElem?, getElem?_slice, if_pos (by omega), Nat.add_zero]

theorem MergeArrayRuns_yields (hc : NeverFails c) (hrun1 : run1 ≠ 0) (hrun2 : run2 ≠ 0)
    (hsrc : lo + run1 + run2 ≤ src.length) (hdst : lo + run1 + run2 ≤ dst.length)
    : Yields (MergeArrayRuns c dst src lo run1 run2) fun dst' =>
        ∃ m, dst' = overwrite dst lo m ∧ Leaves c (slice src lo (run1 + run2))
              (fun le => ArraySort.MergeArrayRuns le (slice src lo run1) (slice src (lo + run1) run2)) m := by
  have hx : src[lo + run1 - 1]? = some src[lo + run1 - 1] := List.getElem?_eq_getElem (by omega)
  have hy : src[lo + run1]? = some src[lo + run1] := List.getElem?_eq_getElem (by omega)
  have hlast : (slice src lo run1).getLast? = some src[lo + run1 - 1] := (getLast?_slice hrun1 (by omega)).trans hx
  have hhead : (slice src (lo + run1) run2).head? = some src[lo + run1] := (head?_slice hrun2).trans hy
  rw [MergeArrayRuns, if_neg (not_or.mpr ⟨hrun1, hrun2⟩)]
  dsimp only
  rw [read_eq hx, pure_bind, read_eq hy, pure_bind]
  refine .bind (lessOrEqual_yields hc _ _) fun answer hanswer => .ite (fun htrue => ?_) fun hfalse => ?_
  . rw [CopyNonEmptyArray_eq (by omega) (by omega) (by omega)]
    refine .pure ⟨_, rfl, .refl _, fun le hle => ?_⟩
    dsimp only [ArraySort.MergeArrayRuns]
    rw [hlast, hhead]
    dsimp only
    rw [← hanswer le hle, if_pos htrue, slice_add]
  refine (mergeLoop_yields hc hrun1 hrun2 (Nat.le_refl _) (by omega) hsrc hdst).mono ?_
  rintro dst' ⟨m, rfl, hperm, hm⟩
  rw [← slice_add] at hperm
  refine ⟨m, rfl, hperm, fun le hle => ?_⟩
  dsimp only [ArraySort.MergeArrayRuns]
  rw [hlast, hhead]
  dsimp only
  rw [← hanswer le hle, if_neg hfalse]
  exact hm le hle

theorem insertLoop_yields (hc : NeverFails c) (hbefore : before ≠ []) (front rest : List α) (x : α)
    : Yields (insertLoop c front.length (front.length + before.length) (front ++ (before.reverse ++ x :: rest)))
        fun array => ∃ m, array = front ++ (m.reverse ++ rest)
          ∧ Leaves c (x :: before) (fun le => ArraySort.moveLeft le before x) m := by
  induction before generalizing rest with
  | nil => exact absurd rfl hbefore
  | cons y before ih =>
    have hlength : (front ++ before.reverse).length = front.length + before.length := by
      rw [length_append, length_reverse]
    have harray : front ++ ((y :: before).reverse ++ x :: rest) = (front ++ before.reverse) ++ y :: x :: rest := by
      rw [reverse_cons, append_assoc, append_assoc]
      rfl
    have hset (zs : List α) (i : Nat) (w : α)
        : ((front ++ before.reverse) ++ zs).set (front.length + before.length + i) w
          = (front ++ before.reverse) ++ zs.set i w := by
      rw [← hlength, set_append_right _ _ (by omega), Nat.add_sub_cancel_left]
    have hget (zs : List α) (i : Nat)
        : ((front ++ before.reverse) ++ zs)[front.length + before.length + i]? = zs[i]? := by
      rw [← hlength, List.getElem?_append_right (by omega), Nat.add_sub_cancel_left]
    have hwrite (w : α) (zs : List α) (i : Nat) (hi : i < zs.length)
        : (write ((front ++ before.reverse) ++ zs) (front.length + before.length + i) w : Sorting σ (List α))
          = pure ((front ++ before.reverse) ++ zs.set i w) := by
      rw [write_eq (by rw [length_append, hlength]; omega), hset]
    have hy : ((front ++ before.reverse) ++ y :: x :: rest)[front.length + before.length]? = some y := hget _ 0
    have hx : ((front ++ before.reverse) ++ y :: x :: rest)[front.length + before.length + 1]? = some x := hget _ 1
    have hfirst : (write ((front ++ before.reverse) ++ y :: x :: rest) (front.length + before.length) x : Sorting σ _)
        = pure ((front ++ before.reverse) ++ x :: x :: rest) := hwrite _ _ 0 (Nat.zero_lt_succ _)
    have hsecond :
        (write ((front ++ before.reverse) ++ x :: x :: rest) (front.length + before.length + 1) y : Sorting σ _)
        = pure ((front ++ before.reverse) ++ x :: y :: rest) := hwrite _ _ 1 (Nat.succ_lt_succ (Nat.zero_lt_succ _))
    rw [harray, length_cons, ← Nat.add_assoc, insertLoop, read_eq hy, pure_bind, read_eq hx, pure_bind]
    refine .bind (lessOrEqual_yields hc y x) fun answer hanswer => .ite (fun htrue => ?_) fun hfalse => ?_
    . refine .pure ⟨x :: y :: before, ?_, .refl _, fun le hle => ?_⟩
      . rw [reverse_cons, reverse_cons]
        simp only [append_assoc, cons_append, nil_append]
      . dsimp only [ArraySort.moveLeft]
        rw [← hanswer le hle, if_pos htrue]
    rw [pure_bind, pure_bind, hfirst, pure_bind, hsecond, pure_bind]
    refine .ite (fun hlast => ?_) fun hmore => ?_
    . have hnil : before = [] := length_eq_zero_iff.mp (by omega)
      subst hnil
      refine .pure ⟨[y, x], ?_, .swap x y [], fun le hle => ?_⟩
      . rw [reverse_nil, append_nil]
        rfl
      . dsimp only [ArraySort.moveLeft]
        rw [← hanswer le hle, if_neg hfalse]
    have hne : before ≠ [] := by
      rintro rfl
      exact hmore rfl
    rw [append_assoc]
    refine (ih hne (y :: rest)).mono ?_
    rintro array ⟨m, rfl, hperm, hm⟩
    refine ⟨y :: m, ?_, (hperm.cons y).trans (.swap x y before), fun le hle => ?_⟩
    . rw [reverse_cons, append_assoc]
      rfl
    dsimp only [ArraySort.moveLeft]
    rw [← hanswer le hle, if_neg hfalse]
    exact congrArg (List.cons y) (hm le hle)

theorem insertionLoop_yields (hc : NeverFails c) (hbefore : before ≠ [])
    (hfuel : todo.length < fuel) (hend : hi = front.length + before.length + todo.length)
    : Yields (insertionLoop c front.length hi fuel (front.length + before.length)
        (front ++ (before.reverse ++ (todo ++ rest)))) fun array => ∃ m, array = front ++ (m ++ rest)
          ∧ Leaves c (before.reverse ++ todo) (fun le => (todo.foldl (ArraySort.moveLeft le) before).reverse) m := by
  induction fuel generalizing before todo with
  | zero => omega
  | succ fuel ih =>
    rw [insertionLoop]
    cases todo with
    | nil =>
      rw [length_nil, Nat.add_zero] at hend
      rw [if_pos hend.symm]
      refine .pure ⟨before.reverse, rfl, ?_, fun le _ => rfl⟩
      rw [append_nil]
    | cons x todo =>
      rw [length_cons] at hend hfuel
      rw [if_neg (by omega)]
      refine .bind (insertLoop_yields hc hbefore front (todo ++ rest) x) ?_
      rintro array ⟨m, rfl, hm⟩
      have hlength := hm.length_eq
      rw [length_cons] at hlength
      rw [show front.length + before.length + 1 = front.length + m.length by omega]
      refine (ih (ne_nil_of_length_pos (by omega)) (by omega) (by omega)).mono ?_
      rintro array ⟨m', rfl, hperm, hm'⟩
      refine ⟨m', rfl, hperm.trans ?_, fun le hle => ?_⟩
      . refine ((m.reverse_perm.trans hm.1).append_right todo).trans ?_
        exact ((before.reverse_perm.symm.cons x).append_right todo).trans perm_middle.symm
      . rw [hm' le hle, hm.2 le hle]
        rfl

theorem chunksLoop_end (h : nelems ≤ lo) (hfuel : 0 < fuel)
    : chunksLoop c nelems fuel lo array = (pure array : Sorting σ (List α)) := by
  obtain ⟨fuel, rfl⟩ := Nat.exists_eq_add_one_of_ne_zero hfuel.ne'
  rw [chunksLoop, if_neg (by omega)]

theorem chunksLoop_yields (hc : NeverFails c) (hfuel : rest.length < fuel)
    (hnelems : nelems = front.length + rest.length)
    : Yields (chunksLoop c nelems fuel front.length (front ++ rest)) fun array =>
        ∃ m, array = front ++ m ∧ Leaves c rest (fun le => ArraySort.sortChunks le rest) m := by
  induction fuel generalizing front rest with
  | zero => omega
  | succ fuel ih =>
    cases rest with
    | nil =>
      rw [chunksLoop_end (by rw [hnelems]; exact Nat.le_refl _) (Nat.zero_lt_succ fuel)]
      refine .pure ⟨[], rfl, .refl _, fun le _ => ?_⟩
      dsimp only
      rw [ArraySort.sortChunks, if_pos rfl]
    | cons x rest =>
      rw [length_cons] at hfuel hnelems
      have hchunk : front ++ x :: rest = front ++ ([x].reverse ++ (rest.take 2 ++ rest.drop 2)) := by
        rw [take_append_drop]
        rfl
      have hhi : (if front.length + INS_SORT_LIMIT ≥ nelems then nelems else front.length + INS_SORT_LIMIT)
          = front.length + [x].length + (rest.take 2).length := by
        rw [length_take, length_singleton, INS_SORT_LIMIT]
        split <;> omega
      rw [chunksLoop, if_pos (by omega)]
      dsimp only
      rw [hchunk]
      have hinsert : Yields (insertionLoop c front.length _ (nelems + 1) (front.length + [x].length)
          (front ++ ([x].reverse ++ (rest.take 2 ++ rest.drop 2)))) _ :=
        insertionLoop_yields hc (cons_ne_nil x []) (by rw [length_take]; omega) hhi
      refine .bind hinsert ?_
      rintro array ⟨m, rfl, hm⟩
      have hlength := hm.length_eq
      rw [length_append, length_take, reverse_singleton, length_singleton] at hlength
      have hsort (le : α → α → Bool) : ArraySort.sortChunks le (x :: rest)
          = ((rest.take 2).foldl (ArraySort.moveLeft le) [x]).reverse ++ ArraySort.sortChunks le (rest.drop 2) := by
        rw [ArraySort.sortChunks, if_neg (cons_ne_nil x rest)]
        rfl
      have hrest : (m ++ rest.drop 2).Perm (x :: rest) := by
        have happend := hm.1.append_right (rest.drop 2)
        rwa [append_assoc, take_append_drop] at happend
      by_cases hlast : rest.length ≤ 2
      . rw [chunksLoop_end (by rw [INS_SORT_LIMIT]; omega) (by omega)]
        refine .pure ⟨m ++ rest.drop 2, rfl, hrest, fun le hle => ?_⟩
        dsimp only
        rw [hsort, hm.2 le hle, drop_of_length_le hlast, ArraySort.sortChunks, if_pos rfl]
      rw [← append_assoc, show front.length + INS_SORT_LIMIT = (front ++ m).length by
        rw [length_append, INS_SORT_LIMIT]; omega]
      refine (ih (by rw [length_drop]; omega) (by rw [length_append, length_drop]; omega)).mono ?_
      rintro array ⟨m', rfl, hperm, hm'⟩
      refine ⟨m ++ m', append_assoc .., (hperm.append_left m).trans hrest, fun le hle => ?_⟩
      dsimp only
      rw [hsort, hm.2 le hle, hm' le hle]

theorem passLoop_end (h : nelems ≤ lo) (hfuel : 0 < fuel)
    : passLoop c nelems run src fuel lo array = (pure array : Sorting σ (List α)) := by
  obtain ⟨fuel, rfl⟩ := Nat.exists_eq_add_one_of_ne_zero hfuel.ne'
  rw [passLoop, if_neg (by omega)]

theorem mergePass_short (le : α → α → Bool) (h : array.length ≤ run) : ArraySort.mergePass le run array = array := by
  rw [ArraySort.mergePass, if_pos (.inr h)]

theorem passLoop_yields (hc : NeverFails c) (hrun : run ≠ 0) (hsrc : src.length = nelems)
    (hdst : front.length + rest.length = nelems) (hfuel : rest.length < fuel)
    : Yields (passLoop c nelems run src fuel front.length (front ++ rest)) fun dst =>
        ∃ m, dst = front ++ m
          ∧ Leaves c (src.drop front.length) (fun le => ArraySort.mergePass le run (src.drop front.length)) m := by
  induction fuel generalizing front rest with
  | zero => omega
  | succ fuel ih =>
    have hdrop : (src.drop front.length).length = rest.length := by
      rw [length_drop]
      omega
    have hlength : (front ++ rest).length = nelems := by rw [length_append, hdst]
    rw [passLoop]
    refine .ite (fun hmore => ?_) fun hend => ?_
    . refine .ite (fun hlast => ?_) fun hpair => ?_
      . have hslice : slice src front.length (nelems - front.length) = src.drop front.length :=
          take_of_length_le (by omega)
        have hcopy : (CopyNonEmptyArray src (front ++ rest) front.length front.length (nelems - front.length)
            : Sorting σ (List α)) = _ := CopyNonEmptyArray_eq (by omega) (by omega) (by omega)
        have hnil : rest.drop (src.drop front.length).length = [] := drop_of_length_le (by omega)
        rw [hcopy, hslice, overwrite_concat, hnil, append_nil]
        exact .pure ⟨_, rfl, .refl _, fun le _ => (mergePass_short le (by omega)).symm⟩
      obtain ⟨run2, hrun2⟩ : ∃ run2, run2 = if run ≤ nelems - (front.length + run) then run
        else nelems - (front.length + run) := ⟨_, rfl⟩
      have hmin : run2 = min run (nelems - (front.length + run)) := by
        rw [hrun2]
        split <;> omega
      dsimp only
      rw [← hrun2]
      refine .bind (MergeArrayRuns_yields hc hrun (by omega) (by omega) (by omega)) ?_
      rintro dst ⟨m, rfl, hm⟩
      have hm' := hm.length_eq
      rw [length_slice (by omega)] at hm'
      rw [overwrite_concat]
      have hrun1 : slice src front.length run = (src.drop front.length).take run := rfl
      have hrun2 : slice src (front.length + run) run2 = ((src.drop front.length).drop run).take run := by
        unfold slice
        rw [drop_drop, take_eq_take_iff, length_drop]
        omega
      have hpass (le : α → α → Bool) (hle : Follows c le) : ArraySort.mergePass le run (src.drop front.length)
          = m ++ ArraySort.mergePass le run (src.drop (front.length + 2 * run)) := by
        rw [ArraySort.mergePass, if_neg (by omega), hm.2 le hle, ← hrun1, ← hrun2, ← drop_drop]
      have hsplit : slice src front.length (run + run2) ++ src.drop
          (front.length + 2 * run) = src.drop front.length := by
        rw [slice_add, hrun1, hrun2, ← drop_drop, ArraySort.take_append_take_append_drop]
      by_cases htail : nelems ≤ front.length + 2 * run
      . have hnil : src.drop (front.length + 2 * run) = [] := drop_of_length_le (by omega)
        rw [passLoop_end htail (by omega), drop_of_length_le (by omega), append_nil]
        rw [hnil, append_nil] at hsplit
        refine .pure ⟨m, rfl, hsplit ▸ hm.1, fun le hle => ?_⟩
        dsimp only
        rw [hpass le hle, hnil, mergePass_short le (Nat.zero_le _), append_nil]
      have hfront : front.length + 2 * run = (front ++ m).length := by
        rw [length_append]
        omega
      rw [hfront]
      refine (ih (by rw [← hfront, length_drop]; omega) (by rw [length_drop]; omega)).mono ?_
      rintro dst ⟨m', rfl, hperm, hm''⟩
      rw [← hfront] at hperm hm''
      refine ⟨m ++ m', append_assoc .., hsplit ▸ hm.1.append hperm, fun le hle => ?_⟩
      dsimp only
      rw [hpass le hle, hm'' le hle]
    . have hnil : rest = [] := length_eq_zero_iff.mp (by omega)
      subst hnil
      have hsrcNil : src.drop front.length = [] := length_eq_zero_iff.mp hdrop
      rw [hsrcNil]
      exact .pure ⟨[], rfl, .refl _, fun le _ => (mergePass_short le (Nat.zero_le _)).symm⟩

theorem runLoop_yields (hc : NeverFails c) (hrun : run ≠ 0) (hvec1 : vec1.length = nelems)
    (hvec2 : vec2.length = nelems) (hfuel : nelems - run < fuel) (swapped : Bool)
    : Yields (runLoop c nelems fuel run vec1 vec2 swapped) fun vecs =>
        Leaves c vec1 (fun le => ArraySort.mergePasses le nelems run vec1) vecs.1 ∧ vecs.2.1.length = nelems := by
  induction fuel generalizing run vec1 vec2 swapped with
  | zero => omega
  | succ fuel ih =>
    rw [runLoop]
    refine .ite (fun hmore => ?_) fun hlast => ?_
    . have hpass : Yields (passLoop c nelems run vec1 (nelems + 1) ([] : List α).length ([] ++ vec2)) _ :=
        passLoop_yields hc hrun hvec1 (by rw [length_nil]; omega) (by omega)
      refine .bind hpass ?_
      rintro vec ⟨m, rfl, hm⟩
      have hlength := hm.length_eq
      rw [length_nil, drop_zero] at hm hlength
      refine (ih (by omega) (by omega) hvec1 (by omega) (!swapped)).mono ?_
      rintro ⟨vec, vec', swapped'⟩ ⟨hvec, hvec'⟩
      refine ⟨⟨hvec.1.trans hm.1, fun le hle => ?_⟩, hvec'⟩
      dsimp only
      rw [ArraySort.mergePasses, if_neg (by omega)]
      exact (hvec.2 le hle).trans (congrArg (ArraySort.mergePasses le nelems (run * 2)) (hm.2 le hle))
    . refine .pure ⟨⟨.refl _, fun le _ => ?_⟩, hvec2⟩
      dsimp only
      rw [ArraySort.mergePasses, if_pos (.inr (by omega))]

theorem MergeSort_yields (hc : NeverFails c) (array : List α) (hscratch : scratch.length = array.length)
    : Yields (MergeSort c array array.length scratch) fun arrays =>
        Leaves c array (fun le => ArraySort.MergeSort le array) arrays.1 ∧ arrays.2.length = array.length := by
  rw [MergeSort]
  refine .ite (fun hle => ?_) fun hmore => ?_
  . refine .pure ⟨⟨.refl _, fun le _ => ?_⟩, hscratch⟩
    dsimp only
    rw [ArraySort.MergeSort, if_pos hle]
  have hchunks : Yields (chunksLoop c array.length (array.length + 1) ([] : List α).length ([] ++ array)) _ :=
    chunksLoop_yields hc (Nat.lt_succ_self _) (Nat.zero_add _).symm
  refine .bind hchunks ?_
  rintro _ ⟨chunks, rfl, hchunks⟩
  have hlength := hchunks.length_eq
  refine .bind (runLoop_yields hc (by decide) hlength hscratch (by rw [INS_SORT_LIMIT]; omega) false) ?_
  rintro ⟨vec1, vec2, swapped⟩ ⟨hvec1, hvec2⟩
  dsimp only at hvec1 hvec2
  have hlength1 := hvec1.length_eq.trans hlength
  have hleaves : Leaves c array (fun le => ArraySort.MergeSort le array) vec1 := by
    refine ⟨hvec1.1.trans hchunks.1, fun le hle => ?_⟩
    dsimp only
    rw [ArraySort.MergeSort, if_neg hmore]
    exact (hvec1.2 le hle).trans (congrArg (ArraySort.mergePasses le array.length 3) (hchunks.2 le hle))
  refine .ite (fun _ => ?_) fun _ => ?_
  . have hcopy : (CopyNonEmptyArray vec1 vec2 0 0 array.length : Sorting σ (List α)) = _ :=
      CopyNonEmptyArray_eq (by omega) (by omega) (by rw [hvec2]; omega)
    have hslice : slice vec1 0 array.length = vec1 := take_of_length_le (by rw [length_drop]; omega)
    have hfront := overwrite_front (hvec2.trans hlength1.symm) []
    rw [append_nil, append_nil] at hfront
    rw [hslice, hfront] at hcopy
    exact .bind_eq hcopy (.pure ⟨hleaves, hlength1⟩)
  . exact .pure ⟨hleaves, hvec2⟩

theorem MergeSort_stable_anyComparator (hc : NeverFails c) (array : List α) {scratch : List α}
    (hscratch : scratch.length = array.length) (s : σ)
    : ∃ array' scratch' s', MergeSort c array array.length scratch s = .ok ((array', scratch'), s')
        ∧ scratch'.length = array.length
        ∧ array'.Perm array
        ∧ ∀ le, TotalPreorder le → Follows c le → ∀ sorted, IsStableSort le array sorted ↔ sorted = array' := by
  obtain ⟨⟨array', scratch'⟩, s', hrun, ⟨hperm, hsort⟩, hlength⟩ := (MergeSort_yields hc array hscratch).of_state s
  refine ⟨array', scratch', s', hrun, hlength, hperm, fun le hpreorder hle sorted => ?_⟩
  have harray' : array' = array.mergeSort le := (hsort le hle).trans (ArraySort.MergeSort_eq_mergeSort hpreorder array)
  constructor
  . intro hsorted
    rw [harray']
    exact hpreorder.eq_mergeSort hsorted
  rintro rfl
  rw [harray']
  exact hpreorder.mergeSort_isStableSort array

end

def counting : Comparator Nat (Nat × Nat) := fun a b s => some (decide (a.1 ≤ b.1), s + 1)

theorem MergeSort_stable_anyComparator_of_counting
    : ∃ array' scratch' s', MergeSort counting [(2, 0), (1, 1), (2, 2), (1, 3)] 4 (List.replicate 4 (0, 0)) 0
          = .ok ((array', scratch'), s')
        ∧ ∀ sorted, IsStableSort (fun a b => decide (a.1 ≤ b.1)) [(2, 0), (1, 1), (2, 2), (1, 3)] sorted
            ↔ sorted = array' := by
  have hc : NeverFails counting := fun _ _ _ => rfl
  have hscratch : (List.replicate 4 (0, 0)).length = [(2, 0), (1, 1), (2, 2), (1, 3)].length := rfl
  obtain ⟨array', scratch', s', hrun, _, _, hsort⟩ := MergeSort_stable_anyComparator hc _ hscratch 0
  refine ⟨array', scratch', s', hrun, hsort _ ⟨fun a b c hab hbc => ?_, fun a b => ?_⟩ fun a b s => ⟨s + 1, rfl⟩⟩
  . exact decide_eq_true ((of_decide_eq_true hab).trans (of_decide_eq_true hbc))
  rcases Nat.le_total a.1 b.1 with h | h
  . rw [decide_eq_true h, Bool.true_or]
  . rw [decide_eq_true h, Bool.or_true]

end SpiderMonkey.InPlaceSort
