import Mathlib.Data.Finset.Card
import SpiderMonkey.Builtin.Impl.ArraySort
import SpiderMonkey.Lib.Decimal
import SpiderMonkey.Lib.StableSort

/-!
This module contains that the merge sort is stable, that sorting by keys moves every value to the position of its key,
and that integers are compared as their decimal strings.
-/

namespace SpiderMonkey.ArraySort

open List Decimal
open StableSort
open scoped List

section

variable {α : Type} {c : α → α → Bool}

theorem moveLeft_perm (c : α → α → Bool) (before : List α) (x : α) : (moveLeft c before x).Perm (x :: before) := by
  induction before with
  | nil => exact .refl _
  | cons y before ih =>
    rw [moveLeft]
    split
    . exact .refl _
    . exact (ih.cons y).trans (List.Perm.swap x y before)

theorem insertionSort_perm (c : α → α → Bool) (chunk : List α) : (insertionSort c chunk).Perm chunk := by
  have hfoldl (before : List α) : (chunk.foldl (moveLeft c) before).Perm (before ++ chunk) := by
    induction chunk generalizing before with
    | nil => rw [append_nil, foldl_nil]
    | cons x chunk ih =>
      calc (chunk.foldl (moveLeft c) (moveLeft c before x)).Perm (moveLeft c before x ++ chunk) := ih _
        _ ~ x :: before ++ chunk := (moveLeft_perm c before x).append_right chunk
        _ ~ before ++ x :: chunk := perm_middle.symm
  exact (reverse_perm _).trans (hfoldl [])

theorem sortChunks_perm (c : α → α → Bool) (array : List α) : (sortChunks c array).Perm array := by
  induction array using sortChunks.induct with
  | case1 =>
    rw [sortChunks, if_pos rfl]
  | case2 array hne ih =>
    rw [sortChunks, if_neg hne]
    calc insertionSort c (array.take INS_SORT_LIMIT) ++ sortChunks c (array.drop INS_SORT_LIMIT)
        ~ array.take INS_SORT_LIMIT ++ array.drop INS_SORT_LIMIT := (insertionSort_perm c _).append ih
      _ = array := take_append_drop ..

theorem MergeArrayRuns_cases (c : α → α → Bool) (run1 run2 : List α)
    : MergeArrayRuns c run1 run2 = run1.merge run2 c ∨ MergeArrayRuns c run1 run2 = run1 ++ run2
        ∧ ∀ x ∈ run1.getLast?, ∀ y ∈ run2.head?, c x y := by
  unfold MergeArrayRuns
  split
  next x y hlast hhead =>
    split
    next hle =>
      refine .inr ⟨rfl, ?_⟩
      rw [hlast, hhead]
      rintro _ ⟨⟩ _ ⟨⟩
      exact hle
    next => exact .inl rfl
  next hnone =>
    refine .inr ⟨rfl, fun x hx y hy => ?_⟩
    exact absurd hy (hnone x y hx)

theorem MergeArrayRuns_perm (c : α → α → Bool) (run1 run2 : List α)
    : (MergeArrayRuns c run1 run2).Perm (run1 ++ run2) := by
  rcases MergeArrayRuns_cases c run1 run2 with heq | ⟨heq, _⟩
  . rw [heq]
    exact merge_perm_append c
  . rw [heq]

theorem take_append_take_append_drop (l : List α) (run : Nat)
    : l.take run ++ (l.drop run).take run ++ l.drop (2 * run) = l := by
  rw [Nat.two_mul, ← drop_drop, append_assoc, take_append_drop, take_append_drop]

theorem mergePass_perm (c : α → α → Bool) (run : Nat) (vec : List α) : (mergePass c run vec).Perm vec := by
  induction vec using mergePass.induct run with
  | case1 vec hlast => rw [mergePass, if_pos hlast]
  | case2 vec hmore ih =>
    rw [mergePass, if_neg hmore]
    calc MergeArrayRuns c (vec.take run) ((vec.drop run).take run) ++ mergePass c run (vec.drop (2 * run))
        ~ vec.take run ++ (vec.drop run).take run ++ vec.drop (2 * run) := (MergeArrayRuns_perm c _ _).append ih
      _ = vec := take_append_take_append_drop vec run

theorem mergePasses_perm (c : α → α → Bool) (nelems run : Nat) (vec : List α)
    : (mergePasses c nelems run vec).Perm vec := by
  induction run, vec using mergePasses.induct c nelems with
  | case1 run vec hlast => rw [mergePasses, if_pos hlast]
  | case2 run vec hmore ih =>
    rw [mergePasses, if_neg hmore]
    exact ih.trans (mergePass_perm c run vec)

theorem MergeSort_perm (c : α → α → Bool) (array : List α) : (MergeSort c array).Perm array := by
  unfold MergeSort
  split
  . exact .refl _
  . exact (mergePasses_perm c ..).trans (sortChunks_perm c array)

end

section

variable {α : Type} {c : α → α → Bool}

theorem moveLeft_isStableSort (h : TotalPreorder c) {before : List α} (hsorted : before.reverse.Pairwise (c · ·))
    (x : α)
    : IsStableSort c (before.reverse ++ [x]) (moveLeft c before x).reverse := by
  induction before with
  | nil => exact singleton_isStableSort x
  | cons y before ih =>
    rw [reverse_cons] at hsorted
    obtain ⟨hbefore, _, hle⟩ := pairwise_append.mp hsorted
    have hley : ∀ a ∈ before, c a y := fun a ha => hle a (mem_reverse.mpr ha) y (mem_singleton_self y)
    rw [moveLeft]
    split
    next hyx =>
      rw [reverse_cons, reverse_cons, reverse_cons]
      apply append_isStableSort (isStableSort_self hsorted) (singleton_isStableSort x)
      intro a ha b hb
      rw [mem_singleton.mp hb]
      rcases mem_append.mp ha with ha | ha
      . exact h.trans a y x (hley a (mem_reverse.mp ha)) hyx
      . rw [mem_singleton.mp ha]
        exact hyx
    next hyx =>
      rw [reverse_cons, reverse_cons, append_assoc]
      apply h.isStableSort_swap hyx
      rw [append_cons]
      apply append_isStableSort (ih hbefore) (singleton_isStableSort y)
      intro a ha b hb
      rw [mem_singleton.mp hb]
      rcases mem_cons.mp ((moveLeft_perm c before x).mem_iff.mp (mem_reverse.mp ha)) with rfl | ha
      . exact h.le_of_not hyx
      . exact hley a ha

theorem insertionSort_isStableSort (h : TotalPreorder c) (chunk : List α)
    : IsStableSort c chunk (insertionSort c chunk) := by
  have hfoldl {done before : List α} (hsort : IsStableSort c done before.reverse)
      : IsStableSort c (done ++ chunk) (chunk.foldl (moveLeft c) before).reverse := by
    induction chunk generalizing done before with
    | nil =>
      rw [append_nil]
      exact hsort
    | cons x chunk ih =>
      rw [append_cons]
      exact ih (hsort.append_trans (moveLeft_isStableSort h hsort.sorted x))
  exact hfoldl (isStableSort_self (l := [].reverse) .nil)

theorem MergeArrayRuns_isStableSort (h : TotalPreorder c) (hsort1 : IsStableSort c l₁ run1)
    (hsort2 : IsStableSort c l₂ run2) : IsStableSort c (l₁ ++ l₂) (MergeArrayRuns c run1 run2) := by
  rcases MergeArrayRuns_cases c run1 run2 with heq | ⟨heq, hle⟩
  . rw [heq]
    exact h.merge_isStableSort hsort1 hsort2
  rw [heq]
  apply append_isStableSort hsort1 hsort2
  intro a ha b hb
  obtain ⟨x, hx⟩ : ∃ x, run1.getLast? = some x := ⟨_, List.getLast?_eq_some_getLast (ne_nil_of_mem ha)⟩
  obtain ⟨y, hy⟩ : ∃ y, run2.head? = some y := ⟨_, List.head?_eq_some_head (ne_nil_of_mem hb)⟩
  exact h.trans a x b (h.le_getLast? hsort1.sorted ha hx)
    (h.trans x y b (hle x hx y hy) (h.head?_le hsort2.sorted hb hy))

inductive RunsSorted (c : α → α → Bool) (run : Nat) : List α → List α → Prop where
  | last {l v : List α} : v.length ≤ run → IsStableSort c l v → RunsSorted c run l v
  | cons {l l' v v' : List α} : v.length = run → IsStableSort c l v → RunsSorted c run l' v'
    → RunsSorted c run (l ++ l') (v ++ v')

theorem sortChunks_runsSorted (h : TotalPreorder c) (array : List α)
    : RunsSorted c INS_SORT_LIMIT array (sortChunks c array) := by
  induction array using sortChunks.induct with
  | case1 =>
    rw [sortChunks, if_pos rfl]
    exact .last (Nat.zero_le _) (isStableSort_self .nil)
  | case2 array hne ih =>
    rw [sortChunks, if_neg hne]
    have hsort := insertionSort_isStableSort h (array.take INS_SORT_LIMIT)
    by_cases hshort : array.length ≤ INS_SORT_LIMIT
    . rw [take_of_length_le hshort] at hsort ⊢
      rw [drop_of_length_le hshort, sortChunks, if_pos rfl, append_nil]
      exact .last (hsort.length_eq.trans_le hshort) hsort
    have hlength : (insertionSort c (array.take INS_SORT_LIMIT)).length = INS_SORT_LIMIT := by
      rw [hsort.length_eq, length_take_of_le (by omega)]
    have hcons := RunsSorted.cons hlength hsort ih
    rwa [take_append_drop] at hcons

theorem RunsSorted.isStableSort {run : Nat} (hruns : RunsSorted c run l v) (hlength : v.length ≤ run)
    : IsStableSort c l v := by
  induction hruns with
  | last _ hsort => exact hsort
  | cons hrun hsort _ ih =>
    rw [length_append] at hlength
    refine append_isStableSort hsort (ih (by omega)) fun a _ b hb => ?_
    have hpos := length_pos_of_mem hb
    omega

theorem RunsSorted.exists_cons {run : Nat} (hruns : RunsSorted c run l v) (hlength : run < v.length)
    : ∃ l₁ l', l = l₁ ++ l' ∧ IsStableSort c l₁ (v.take run) ∧ RunsSorted c run l' (v.drop run) := by
  cases hruns with
  | last hle _ => exact absurd hlength (Nat.not_lt.mpr hle)
  | cons hrun hsort hrest =>
    rw [take_left' hrun, drop_left' hrun]
    exact ⟨_, _, rfl, hsort, hrest⟩

theorem mergePass_runsSorted (h : TotalPreorder c) {run : Nat} (hrun : 0 < run) (hruns : RunsSorted c run l v)
    : RunsSorted c (run * 2) l (mergePass c run v) := by
  induction v using mergePass.induct run generalizing l with
  | case1 v hlast =>
    have hle : v.length ≤ run := hlast.resolve_left hrun.ne'
    rw [mergePass, if_pos hlast]
    exact .last (by omega) (hruns.isStableSort hle)
  | case2 v hmore ih =>
    obtain ⟨_, hlt⟩ := not_or.mp hmore
    obtain ⟨l₁, l', rfl, hsort1, hrest⟩ := hruns.exists_cons (Nat.not_le.mp hlt)
    rw [mergePass, if_neg hmore]
    by_cases hshort : (v.drop run).length ≤ run
    . have hsort2 := hrest.isStableSort hshort
      have hnil : v.drop (2 * run) = [] := by
        rw [Nat.two_mul, ← drop_drop]
        exact drop_of_length_le hshort
      have hsort := MergeArrayRuns_isStableSort h hsort1 hsort2
      have hlength := (MergeArrayRuns_perm c (v.take run) (v.drop run)).length_eq
      rw [hnil, mergePass, if_pos (.inr (Nat.zero_le _)), append_nil, take_of_length_le hshort]
      refine .last ?_ hsort
      rw [hlength, length_append, length_take_of_le (by omega)]
      omega
    . obtain ⟨l₂, l'', rfl, hsort2, hrest⟩ := hrest.exists_cons (Nat.not_le.mp hshort)
      rw [drop_drop, ← Nat.two_mul] at hrest
      rw [← append_assoc]
      rw [length_drop] at hshort
      refine .cons ?_ (MergeArrayRuns_isStableSort h hsort1 hsort2) (ih hrest)
      rw [(MergeArrayRuns_perm c _ _).length_eq, length_append, length_take_of_le (by omega),
        length_take_of_le (by rw [length_drop]; omega), Nat.mul_two]

theorem mergePasses_isStableSort (h : TotalPreorder c) {nelems run : Nat} (hrun : 0 < run)
    (hruns : RunsSorted c run l v) (hlength : v.length = nelems) : IsStableSort c l (mergePasses c nelems run v) := by
  induction run, v using mergePasses.induct c nelems with
  | case1 run v hlast =>
    rw [mergePasses, if_pos hlast]
    exact hruns.isStableSort (hlength.trans_le (hlast.resolve_left hrun.ne'))
  | case2 run v hmore ih =>
    rw [mergePasses, if_neg hmore]
    exact ih (by omega) (mergePass_runsSorted h hrun hruns) ((mergePass_perm c run v).length_eq.trans hlength)

theorem MergeSort_eq_mergeSort (h : TotalPreorder c) (array : List α) : MergeSort c array = array.mergeSort c := by
  apply h.eq_mergeSort
  unfold MergeSort
  split
  next hle =>
    apply isStableSort_self
    match array, hle with
    | [], _ => exact .nil
    | [x], _ => exact pairwise_singleton _ x
  next =>
    exact mergePasses_isStableSort h (by decide) (sortChunks_runsSorted h array) (sortChunks_perm c array).length_eq

end

section

variable {κ α : Type}

-- The values at the positions in `pending` have not been moved, the other ones are where their keys are.
structure Moved (σ : Nat → Nat) (len : Nat) (orig : List α) (pending : Finset Nat) (keys : List (SortElement κ))
    (vec : List α) : Prop where
  keys_length : keys.length = len
  len_le : len ≤ vec.length
  key : ∀ j ∈ pending, keys[j]?.map (·.elementIndex) = some (σ j)
  value : ∀ j ∈ pending, vec[j]? = orig[j]?
  moved : ∀ j < len, j ∉ pending → vec[j]? = orig[σ j]?
  rest : ∀ j, len ≤ j → vec[j]? = orig[j]?

def Synced (i len : Nat) (pending : Finset Nat) (keys : List (SortElement κ)) : Prop :=
  ∀ j, i ≤ j → j < len → j ∉ pending → keys[j]?.map (·.elementIndex) = some j

variable {σ : Nat → Nat} {len i j fuel : Nat} {orig vec : List α} {pending : Finset Nat} {keys : List (SortElement κ)}

theorem Moved.step (hmoved : Moved σ len orig pending keys vec) (hj : j ∈ pending) (hlt : j < len)
    (hx : orig[σ j]? = some x) (hkeys : keys'.length = len)
    (hkeep : ∀ k, k ≠ j → keys'[k]? = keys[k]?) : Moved σ len orig (pending.erase j) keys' (vec.set j x) where
  keys_length := hkeys
  len_le := by rw [length_set]; exact hmoved.len_le
  key k hk := by
    obtain ⟨hne, hk⟩ := Finset.mem_erase.mp hk
    rw [hkeep k hne, hmoved.key k hk]
  value k hk := by
    obtain ⟨hne, hk⟩ := Finset.mem_erase.mp hk
    rw [List.getElem?_set_ne hne.symm, hmoved.value k hk]
  moved k hk hnot := by
    by_cases hkj : k = j
    . have hin : k < vec.length := hk.trans_le hmoved.len_le
      subst hkj
      rw [List.getElem?_set_self hin, hx]
    . rw [List.getElem?_set_ne (Ne.symm hkj)]
      exact hmoved.moved k hk fun hpending => hnot (Finset.mem_erase.mpr ⟨hkj, hpending⟩)
  rest k hk := by rw [List.getElem?_set_ne (by omega), hmoved.rest k hk]

theorem Moved.fixed (hmoved : Moved σ len orig pending keys vec) (hj : j ∈ pending) (hfixed : σ j = j)
    : Moved σ len orig (pending.erase j) keys vec where
  keys_length := hmoved.keys_length
  len_le := hmoved.len_le
  key k hk := hmoved.key k (Finset.mem_of_mem_erase hk)
  value k hk := hmoved.value k (Finset.mem_of_mem_erase hk)
  moved k hk hnot := by
    by_cases hkj : k = j
    . rw [hkj, hmoved.value j hj, hfixed]
    . exact hmoved.moved k hk fun hpending => hnot (Finset.mem_erase.mpr ⟨hkj, hpending⟩)
  rest := hmoved.rest

theorem Synced.next (hsynced : Synced i len pending keys)
    (hkeep : ∀ k ∈ pending, k ≠ i → k ∈ pending') : Synced (i + 1) len pending' keys := by
  intro k hik hlt hnot
  exact hsynced k (by omega) hlt fun hk => hnot (hkeep k hk (by omega))

structure Open (σ : Nat → Nat) (len i : Nat) (pending : Finset Nat) (j : Nat) : Prop where
  lt : ∀ u ∈ pending, u < len
  closed : ∀ u ∈ pending, u ≠ i → σ u ∈ pending
  first : ∀ u ∈ pending, u ≠ i → σ u ≠ j

theorem Open.step (hinj : ∀ u < len, ∀ w < len, σ u = σ w → u = w) (hopen : Open σ len i pending j) (hj : j ∈ pending)
    (hji : j ≠ i) : σ j ∈ pending.erase j ∧ Open σ len i (pending.erase j) (σ j) where
  left := Finset.mem_erase.mpr ⟨hopen.first j hj hji, hopen.closed j hj hji⟩
  right :=
    { lt := fun u hu => hopen.lt u (Finset.mem_of_mem_erase hu)
      closed := fun u hu hui =>
        have hu := Finset.mem_of_mem_erase hu
        Finset.mem_erase.mpr ⟨hopen.first u hu hui, hopen.closed u hu hui⟩
      first := fun u hu _ heq =>
        have ⟨huj, hu⟩ := Finset.mem_erase.mp hu
        huj (hinj u (hopen.lt u hu) j (hopen.lt j hj) heq) }

theorem followCycle_moved (hinj : ∀ u < len, ∀ w < len, σ u = σ w → u = w) (hopen : Open σ len i pending j)
    (hi : i ∈ pending) (hj : j ∈ pending) (hji : j ≠ i) (hfuel : pending.card ≤ fuel)
    (hmoved : Moved σ len orig pending keys vec) (hsynced : Synced i len pending keys)
    : ∃ pending' keys' vec', followCycle i fuel j keys vec = some (keys', vec') ∧ pending' ⊆ pending ∧ i ∈ pending'
      ∧ Open σ len i pending' i ∧ Moved σ len orig pending' keys' vec' ∧ Synced i len pending' keys' := by
  induction fuel generalizing j pending keys vec with
  | zero =>
    have hpos := Finset.card_pos.mpr ⟨j, hj⟩
    omega
  | succ fuel ih =>
    have hlt := hopen.lt j hj
    obtain ⟨hk, hopen'⟩ := hopen.step hinj hj hji
    obtain ⟨element, helement, hindex⟩ := Option.map_eq_some_iff.mp (hmoved.key j hj)
    have hvalue := hmoved.value (σ j) (Finset.mem_of_mem_erase hk)
    have hin : σ j < vec.length := (hopen'.lt _ hk).trans_le hmoved.len_le
    obtain ⟨x, hx⟩ : ∃ x, vec[σ j]? = some x := ⟨_, List.getElem?_eq_getElem hin⟩
    obtain ⟨keys', hkeys'⟩ : ∃ keys', keys' = keys.set j { element with elementIndex := j } := ⟨_, rfl⟩
    have hjlt : j < keys.length := hmoved.keys_length.symm ▸ hlt
    have hmoved' : Moved σ len orig (pending.erase j) keys' (vec.set j x) := by
      refine hmoved.step hj hlt (hvalue ▸ hx) ?_ fun k hkj => ?_
      . rw [hkeys', length_set, hmoved.keys_length]
      . rw [hkeys', List.getElem?_set_ne (Ne.symm hkj)]
    have hsynced' : Synced i len (pending.erase j) keys' := by
      intro k hik hklt hnot
      by_cases hkj : k = j
      . rw [hkeys', hkj, List.getElem?_set_self hjlt]
        rfl
      . rw [hkeys', List.getElem?_set_ne (Ne.symm hkj)]
        exact hsynced k hik hklt fun hpending => hnot (Finset.mem_erase.mpr ⟨hkj, hpending⟩)
    have hi' : i ∈ pending.erase j := Finset.mem_erase.mpr ⟨hji.symm, hi⟩
    rw [followCycle, helement, some_bind, hindex]
    dsimp only
    rw [hx, some_bind, ← hkeys']
    by_cases hend : σ j = i
    . rw [if_pos hend]
      exact ⟨_, _, _, rfl, Finset.erase_subset _ _, hi', hend ▸ hopen', hmoved', hsynced'⟩
    rw [if_neg hend]
    have hcard : (pending.erase j).card ≤ fuel := by
      rw [Finset.card_erase_of_mem hj]
      omega
    obtain ⟨pending', keys'', vec', hfollow, hsub, hrest⟩ := ih hopen' hi' hk hend hcard hmoved' hsynced'
    exact ⟨pending', keys'', vec', hfollow, hsub.trans (Finset.erase_subset _ _), hrest⟩

theorem reorder_moved (hinj : ∀ u < len, ∀ w < len, σ u = σ w → u = w) {count : Nat} (hcount : i + count = len)
    (hpending : ∀ u ∈ pending, i ≤ u ∧ u < len ∧ σ u ∈ pending) (hmoved : Moved σ len orig pending keys vec)
    (hsynced : Synced i len pending keys)
    : ∃ (keys' : List (SortElement κ)) (vec' : List α), reorder count i keys vec = some vec'
      ∧ Moved σ len orig ∅ keys' vec' := by
  induction count generalizing i pending keys vec with
  | zero =>
    have hempty : pending = ∅ := by
      rw [Finset.eq_empty_iff_forall_notMem]
      intro u hu
      have hbounds := hpending u hu
      omega
    exact ⟨keys, vec, rfl, hempty ▸ hmoved⟩
  | succ count ih =>
    by_cases hi : i ∈ pending
    . obtain ⟨element, helement, hindex⟩ := Option.map_eq_some_iff.mp (hmoved.key i hi)
      obtain ⟨_, hlt, hσ⟩ := hpending i hi
      have hother {u : Nat} (hu : u ∈ pending) (hui : u ≠ i) : σ u ≠ σ i :=
        fun heq => hui (hinj u (hpending u hu).2.1 i hlt heq)
      rw [reorder, helement, some_bind, hindex]
      by_cases hfixed : i = σ i
      . rw [if_pos hfixed]
        refine ih (by omega) (fun u hu => ?_) (hmoved.fixed hi hfixed.symm) (hsynced.next ?_)
        . obtain ⟨hui, hu⟩ := Finset.mem_erase.mp hu
          obtain ⟨hle, hult, hσu⟩ := hpending u hu
          exact ⟨by omega, hult, Finset.mem_erase.mpr ⟨hfixed ▸ hother hu hui, hσu⟩⟩
        . exact fun k hk hki => Finset.mem_erase.mpr ⟨hki, hk⟩
      have hgt : σ i > i := by
        have hle := (hpending (σ i) hσ).1
        omega
      have hin : σ i < vec.length := (hpending (σ i) hσ).2.1.trans_le hmoved.len_le
      obtain ⟨tv, htv⟩ : ∃ tv, vec[σ i]? = some tv := ⟨_, List.getElem?_eq_getElem hin⟩
      have hopen : Open σ len i pending (σ i) :=
        ⟨fun u hu => (hpending u hu).2.1, fun u hu _ => (hpending u hu).2.2, fun u hu hui => hother hu hui⟩
      have hcard : pending.card ≤ keys.length := by
        rw [hmoved.keys_length, ← Finset.card_range len]
        exact Finset.card_le_card fun u hu => Finset.mem_range.mpr (hpending u hu).2.1
      obtain ⟨pending', keys', vec', hfollow, hsub, hi', hopen', hmoved', hsynced'⟩ :=
        followCycle_moved hinj hopen hi hσ (Ne.symm hfixed) hcard hmoved hsynced
      rw [if_neg hfixed, guard, if_pos hgt, Option.pure_def, some_bind, htv, some_bind, hfollow, some_bind]
      have hx : orig[σ i]? = some tv := hmoved.value (σ i) hσ ▸ htv
      refine ih (by omega) (fun u hu => ?_) (hmoved'.step hi' hlt hx hmoved'.keys_length fun _ _ => rfl)
        (hsynced'.next fun k hk hki => Finset.mem_erase.mpr ⟨hki, hk⟩)
      obtain ⟨hui, hu⟩ := Finset.mem_erase.mp hu
      obtain ⟨hle, hult, _⟩ := hpending u (hsub hu)
      exact ⟨by omega, hult, Finset.mem_erase.mpr ⟨hopen'.first u hu hui, hopen'.closed u hu hui⟩⟩
    . obtain ⟨element, helement, hindex⟩ := Option.map_eq_some_iff.mp (hsynced i (Nat.le_refl i) (by omega) hi)
      rw [reorder, helement, some_bind, hindex, if_pos rfl]
      refine ih (by omega) (fun u hu => ?_) hmoved fun j hij => hsynced j (by omega)
      obtain ⟨hiu, hrest⟩ := hpending u hu
      have hne : u ≠ i := fun heq => hi (heq ▸ hu)
      exact ⟨by omega, hrest⟩

end

section

variable {κ α : Type} {keys : List (SortElement κ)} {vec : List α}

theorem reorder_eq {keys' : List (SortElement κ)} (hperm : (keys'.map (·.elementIndex)).Perm (List.range keys'.length))
    (hlen : keys'.length ≤ vec.length)
    : ∃ vec', reorder keys'.length 0 keys' vec = some vec'
      ∧ (vec'.take keys'.length).map some = keys'.map (fun e => vec[e.elementIndex]?)
      ∧ vec'.drop keys'.length = vec.drop keys'.length := by
  obtain ⟨σ, hσ⟩ : ∃ σ : Nat → Nat, σ = fun j => (keys'[j]?.map (·.elementIndex)).getD 0 := ⟨_, rfl⟩
  have hkey {j : Nat} (hj : j < keys'.length) : keys'[j]?.map (·.elementIndex) = some (σ j) := by
    rw [hσ]
    dsimp only
    rw [List.getElem?_eq_getElem hj, Option.map_some, Option.getD_some]
  have hmap {j : Nat} (hj : j < keys'.length) : (keys'.map (·.elementIndex))[j]? = some (σ j) := by
    rw [List.getElem?_map, hkey hj]
  have hrange {j : Nat} (hj : j < keys'.length) : σ j < keys'.length :=
    mem_range.mp (hperm.mem_iff.mp (mem_of_getElem? (hmap hj)))
  have hnodup : (keys'.map (·.elementIndex)).Nodup := hperm.nodup_iff.mpr nodup_range
  have hinj : ∀ u < keys'.length, ∀ w < keys'.length, σ u = σ w → u = w := by
    intro u hu w hw heq
    apply (List.getElem?_inj (by rw [length_map]; exact hu) hnodup).mp
    rw [hmap hu, hmap hw, heq]
  have hmoved : Moved σ keys'.length vec (Finset.range keys'.length) keys' vec :=
    { keys_length := rfl
      len_le := hlen
      key := fun j hj => hkey (Finset.mem_range.mp hj)
      value := fun _ _ => rfl
      moved := fun j hj hnot => absurd (Finset.mem_range.mpr hj) hnot
      rest := fun _ _ => rfl }
  obtain ⟨_, vec', hreorder, hmoved'⟩ := reorder_moved hinj (Nat.zero_add _)
    (fun u hu => ⟨Nat.zero_le u, Finset.mem_range.mp hu, Finset.mem_range.mpr (hrange (Finset.mem_range.mp hu))⟩) hmoved
    fun j _ hj hnot => absurd (Finset.mem_range.mpr hj) hnot
  refine ⟨vec', hreorder, ?_, ?_⟩
  . apply ext_getElem?
    intro j
    rw [List.getElem?_map, List.getElem?_map, List.getElem?_take]
    by_cases hj : j < keys'.length
    . obtain ⟨element, helement, hindex⟩ := Option.map_eq_some_iff.mp (hkey hj)
      have hin : σ j < vec.length := (hrange hj).trans_le hlen
      rw [if_pos hj, helement, hmoved'.moved j hj (Finset.notMem_empty j), Option.map_some, hindex,
        List.getElem?_eq_getElem hin]
      rfl
    . rw [if_neg hj, List.getElem?_eq_none (Nat.not_lt.mp hj)]
      rfl
  . apply ext_getElem?
    intro j
    rw [List.getElem?_drop, List.getElem?_drop, hmoved'.rest _ (Nat.le_add_right ..)]

theorem MergeSortByKey_spec (hindex : keys.map (·.elementIndex) = List.range keys.length)
    (hlen : keys.length ≤ vec.length) (comparator : κ → κ → Bool)
    : ∃ vec', MergeSortByKey keys comparator vec = some vec' ∧ (vec'.take keys.length).map some
        = (MergeSort (fun a b => comparator a.key b.key) keys).map (fun e => vec[e.elementIndex]?)
      ∧ vec'.drop keys.length = vec.drop keys.length := by
  have hperm := MergeSort_perm (fun a b => comparator a.key b.key) keys
  have hlength := hperm.length_eq
  rw [MergeSortByKey, guard, if_pos hlen, Option.pure_def, some_bind, ← hlength]
  refine reorder_eq ?_ (hlength.trans_le hlen)
  rw [hlength, ← hindex]
  exact hperm.map _

theorem map_getElem?_eq (hindex : keys.map (·.elementIndex) = List.range keys.length) (hlen : keys.length ≤ vec.length)
    : keys.map (fun e => vec[e.elementIndex]?) = (vec.take keys.length).map some := by
  have hmap : keys.map (fun e => vec[e.elementIndex]?) = (keys.map (·.elementIndex)).map fun i => vec[i]? := by
    rw [map_map]
    rfl
  rw [hmap, hindex]
  apply ext_getElem?
  intro j
  rw [List.getElem?_map, List.getElem?_map, List.getElem?_take]
  by_cases hj : j < keys.length
  . rw [List.getElem?_range hj, if_pos hj, List.getElem?_eq_getElem (hj.trans_le hlen), Option.map_some,
      Option.map_some, List.getElem?_eq_getElem (hj.trans_le hlen)]
  . rw [if_neg hj, List.getElem?_eq_none (by rw [length_range]; omega)]
    rfl

theorem zip_take_length (l : List κ) (vec : List α) : l.zip (vec.take l.length) = l.zip vec := by
  induction l generalizing vec with
  | nil => rfl
  | cons x l ih =>
    cases vec with
    | nil => rfl
    | cons y vec => rw [length_cons, take_succ_cons, zip_cons_cons, zip_cons_cons, ih]

theorem MergeSortByKey_eq (h : TotalPreorder comparator)
    (hindex : keys.map (·.elementIndex) = List.range keys.length) (hlen : keys.length ≤ vec.length)
    : MergeSortByKey keys comparator vec
        = some ((((keys.map (·.key)).zip vec).mergeSort fun a b => comparator a.1 b.1).map Prod.snd
          ++ vec.drop keys.length) := by
  obtain ⟨vec', hsort, htake, hdrop⟩ := MergeSortByKey_spec hindex hlen comparator
  have hpreorder := h.comap (SortElement.key)
  have hpairs : keys.map (fun e => (e.key, vec[e.elementIndex]?))
      = ((keys.map (·.key)).zip vec).map fun p => (p.1, some p.2) := by
    have hzip := zip_take_length (keys.map (·.key)) vec
    rw [length_map] at hzip
    rw [← zip_map', map_getElem?_eq hindex hlen, zip_map_right, hzip]
    rfl
  have hvalues : (vec'.take keys.length).map some
      = ((((keys.map (·.key)).zip vec).mergeSort fun a b => comparator a.1 b.1).map Prod.snd).map some := by
    calc (vec'.take keys.length).map some
        = (keys.mergeSort fun a b => comparator a.key b.key).map (fun e => vec[e.elementIndex]?) := by
          rw [htake, MergeSort_eq_mergeSort hpreorder]
      _ = ((keys.mergeSort fun a b => comparator a.key b.key).map
            fun e => (e.key, vec[e.elementIndex]?)).map Prod.snd := by
          rw [map_map]
          rfl
      _ = ((keys.map fun e => (e.key, vec[e.elementIndex]?)).mergeSort fun a b => comparator a.1 b.1).map Prod.snd := by
          exact congrArg (List.map Prod.snd) (map_mergeSort fun _ _ _ _ => rfl)
      _ = ((((keys.map (·.key)).zip vec).mergeSort fun a b => comparator a.1 b.1).map
            fun p => (p.1, some p.2)).map Prod.snd := by
          rw [hpairs]
          symm
          exact congrArg (List.map Prod.snd) (map_mergeSort fun _ _ _ _ => rfl)
      _ = _ := by
          rw [map_map, map_map]
          rfl
  rw [hsort, ← take_append_drop keys.length vec', hdrop, map_injective_iff.mpr (Option.some_injective α) hvalues]

theorem MergeSortByKey_perm (hindex : keys.map (·.elementIndex) = List.range keys.length)
    (hlen : keys.length ≤ vec.length)
    (comparator : κ → κ → Bool) : ∃ vec', MergeSortByKey keys comparator vec = some vec' ∧ vec'.Perm vec := by
  obtain ⟨vec', hsort, htake, hdrop⟩ := MergeSortByKey_spec hindex hlen comparator
  refine ⟨vec', hsort, ?_⟩
  have hperm := (MergeSort_perm (fun a b => comparator a.key b.key) keys).map (fun e => vec[e.elementIndex]?)
  rw [← htake, map_getElem?_eq hindex hlen, map_perm_map_iff (Option.some_injective α)] at hperm
  rw [← take_append_drop keys.length vec', ← take_append_drop keys.length vec, hdrop]
  exact hperm.append_right _

end

section

theorem CompareChars_nil (t : List CharT) : CompareChars [] t = -(t.length : Int) := by
  rw [CompareChars]
  . rw [length_nil]
    omega
  . exact nofun

theorem CompareChars_cons_nil (c : CharT) (s : List CharT) : CompareChars (c :: s) [] = s.length + 1 := by
  rw [CompareChars]
  . rw [length_cons, length_nil]
    omega
  . exact nofun

theorem CompareChars_pos_iff (s t : List CharT) : 0 < CompareChars s t ↔ t < s := by
  induction s generalizing t with
  | nil =>
    refine iff_of_false ?_ (not_lt_nil t)
    rw [CompareChars_nil]
    omega
  | cons c1 s ih =>
    cases t with
    | nil =>
      refine iff_of_true ?_ (nil_lt_cons c1 s)
      rw [CompareChars_cons_nil]
      omega
    | cons c2 t =>
      rw [CompareChars, cons_lt_cons_iff, BitVec.lt_def, ← BitVec.toNat_inj]
      split
      next hne => omega
      next heq =>
        rw [ih]
        have hsame : c2.toNat = c1.toNat := by omega
        rw [hsame]
        exact ⟨fun h => .inr ⟨rfl, h⟩, fun h => (h.resolve_left (Nat.lt_irrefl _)).2⟩

theorem CompareChars_le_iff (s t : List CharT) : CompareChars s t ≤ 0 ↔ s ≤ t := by
  rw [← Int.not_lt, CompareChars_pos_iff, List.not_lt]

theorem compareChars_totalPreorder : TotalPreorder fun s t : List CharT => CompareChars s t ≤ 0 where
  trans s t u hst htu := by
    rw [decide_eq_true_eq, CompareChars_le_iff] at hst htu ⊢
    exact List.le_trans hst htu
  total s t := by
    rw [Bool.or_eq_true, decide_eq_true_eq, decide_eq_true_eq, CompareChars_le_iff, CompareChars_le_iff]
    exact List.le_total s t

theorem unit_digitChar_lt_iff : ∀ d < 10, ∀ e < 10, unit (Nat.digitChar d) < unit (Nat.digitChar e) ↔ d < e := by
  decide

theorem log_table : ∀ log2 < 33, ∃ t ≤ 9, (log2 * 1233) >>> 12 = t ∧ powersOf10.getD t 0 = 10 ^ t
    ∧ 2 ^ log2 < 10 ^ (t + 1) ∧ (0 < t → 10 ^ (t - 1) ≤ 2 ^ (log2 - 1)) := by
  decide

theorem CeilingLog2_bounds (h : 1 < n) : 2 ^ (CeilingLog2 n - 1) < n ∧ n ≤ 2 ^ CeilingLog2 n := by
  have hlt := Nat.lt_log2_self (n := n - 1)
  have hle := Nat.log2_self_le (n := n - 1) (by omega)
  rw [CeilingLog2, if_neg (by omega), Nat.add_sub_cancel]
  omega

theorem NumDigitsBase10_zero : NumDigitsBase10 0 = 0 := by
  decide

theorem NumDigitsBase10_eq (hpos : 0 < n) (hn : n < 2 ^ 32) : NumDigitsBase10 n = numDigits n := by
  rcases (show n = 1 ∨ 1 < n by omega) with rfl | hlt
  . rw [numDigits_of_lt (by decide)]
    decide
  obtain ⟨hlow, hhigh⟩ := CeilingLog2_bounds hlt
  have hlog : CeilingLog2 n < 33 := by
    have hpow : CeilingLog2 n - 1 < 32 := (Nat.pow_lt_pow_iff_right (by decide)).mp (hlow.trans hn)
    omega
  obtain ⟨t, ht, htable, hpower, hnext, hprev⟩ := log_table _ hlog
  have hdigits (d : Nat) (hle : 10 ^ d ≤ n) (hlt : n < 10 ^ (d + 1)) : numDigits n = d + 1 := by
    rcases Nat.eq_zero_or_pos d with rfl | hd
    . exact numDigits_of_lt hlt
    . exact (numDigits_eq_iff (by omega)).mpr ⟨hle, hlt⟩
  rw [NumDigitsBase10, htable, hpower]
  split
  next hless =>
    have htpos : 0 < t := by
      rcases Nat.eq_zero_or_pos t with rfl | htpos
      . omega
      . exact htpos
    obtain ⟨t, rfl⟩ := Nat.exists_eq_add_one_of_ne_zero (Nat.ne_of_gt htpos)
    rw [hdigits t ((hprev htpos).trans (Nat.le_of_lt hlow)) hless, Nat.add_sub_cancel]
  next hge => rw [hdigits t (Nat.not_lt.mp hge) (hhigh.trans_lt hnext), Nat.sub_zero]

theorem numDigits_le (hn : n < 2 ^ 32) : numDigits n ≤ 10 :=
  (Nat.length_toDigits_le_iff (by decide) (by decide)).mpr (by omega)

theorem lt_pow_numDigits (n : Nat) : n < 10 ^ numDigits n :=
  (Nat.length_toDigits_le_iff (by decide) (numDigits_pos n)).mp Nat.le.refl

theorem powersOf10_eq : ∀ d < 10, powersOf10[d]? = some (10 ^ d) := by
  decide

theorem powersOf10_isSome : ∀ d < 11, powersOf10[d]?.isSome := by
  decide

theorem scaled_mod (hm : numDigits m ≤ 10) (h : numDigits n ≤ numDigits m)
    : n * 10 ^ (numDigits m - numDigits n) % 2 ^ 64 = n * 10 ^ (numDigits m - numDigits n) := by
  apply Nat.mod_eq_of_lt
  calc n * 10 ^ (numDigits m - numDigits n)
      < 10 ^ numDigits n * 10 ^ (numDigits m - numDigits n) :=
        Nat.mul_lt_mul_of_pos_right (lt_pow_numDigits n) (Nat.pow_pos (by decide))
    _ = 10 ^ numDigits m := by rw [← Nat.pow_add, Nat.add_sub_cancel' h]
    _ ≤ 10 ^ 10 := Nat.pow_le_pow_right (by decide) hm
    _ ≤ 2 ^ 64 := by decide

def compareMagnitudes (auint buint : Nat) : Option Bool :=
  let digitsa := NumDigitsBase10 auint
  let digitsb := NumDigitsBase10 buint
  if digitsa = digitsb then some (auint ≤ buint)
  else if digitsa > digitsb then do
    let power ← powersOf10[digitsa - digitsb]?
    return auint < buint * power % 2 ^ 64
  else do
    let power ← powersOf10[digitsb - digitsa]?
    return auint * power % 2 ^ 64 ≤ buint

theorem compareMagnitudes_zero_left (hpos : 0 < b) (hb : b < 2 ^ 32)
    : compareMagnitudes 0 b = some (decide (write unit 0 ≤ write unit b)) := by
  have hdigits := numDigits_le hb
  have hdigitsPos := numDigits_pos b
  obtain ⟨power, hpower⟩ := Option.isSome_iff_exists.mp (powersOf10_isSome (numDigits b) (by omega))
  have hle : write unit 0 ≤ write unit b := by
    have hzero := numDigits_of_lt (show 0 < 10 by decide)
    rw [write_le_iff unit_digitChar_lt_iff, hzero]
    split
    . exact Nat.zero_le b
    . rw [if_neg (by omega), Nat.zero_mul]
      exact Nat.zero_le b
  rw [compareMagnitudes, NumDigitsBase10_zero, NumDigitsBase10_eq hpos hb, if_neg (by omega), if_neg (by omega),
    Nat.sub_zero, hpower, decide_eq_true hle, some_bind, Nat.zero_mul]
  exact congrArg some (decide_eq_true (Nat.zero_le b))

theorem compareMagnitudes_zero_right (hpos : 0 < a) (ha : a < 2 ^ 32)
    : compareMagnitudes a 0 = some (decide (write unit a ≤ write unit 0)) := by
  have hdigits := numDigits_le ha
  have hdigitsPos := numDigits_pos a
  obtain ⟨power, hpower⟩ := Option.isSome_iff_exists.mp (powersOf10_isSome (numDigits a) (by omega))
  have hnot : ¬write unit a ≤ write unit 0 := by
    have hzero := numDigits_of_lt (show 0 < 10 by decide)
    rw [write_le_iff unit_digitChar_lt_iff, hzero]
    split
    . omega
    . rw [if_pos (by omega), Nat.zero_mul]
      exact Nat.not_lt_zero a
  rw [compareMagnitudes, NumDigitsBase10_zero, NumDigitsBase10_eq hpos ha, if_neg (by omega), if_pos (by omega),
    Nat.sub_zero, hpower, decide_eq_false hnot, some_bind, Nat.zero_mul]
  exact congrArg some (decide_eq_false (Nat.not_lt_zero a))

theorem compareMagnitudes_eq (hne : a ≠ b) (ha : a < 2 ^ 32) (hb : b < 2 ^ 32)
    : compareMagnitudes a b = some (decide (write unit a ≤ write unit b)) := by
  rcases Nat.eq_zero_or_pos a with rfl | hapos
  . exact compareMagnitudes_zero_left (by omega) hb
  rcases Nat.eq_zero_or_pos b with rfl | hbpos
  . exact compareMagnitudes_zero_right hapos ha
  have hadigits := numDigits_le ha
  have hbdigits := numDigits_le hb
  have hadigitsPos := numDigits_pos a
  have hbdigitsPos := numDigits_pos b
  rw [compareMagnitudes, NumDigitsBase10_eq hapos ha, NumDigitsBase10_eq hbpos hb]
  have hwrite := write_le_iff unit_digitChar_lt_iff a b
  split
  next heq =>
    rw [if_pos heq] at hwrite
    exact congrArg some (decide_eq_decide.mpr hwrite.symm)
  next hdigits =>
    rw [if_neg hdigits] at hwrite
    split
    next hgt =>
      rw [if_pos hgt] at hwrite
      rw [powersOf10_eq _ (by omega), some_bind, scaled_mod hadigits (Nat.le_of_lt hgt)]
      exact congrArg some (decide_eq_decide.mpr hwrite.symm)
    next hle =>
      rw [if_neg hle] at hwrite
      rw [powersOf10_eq _ (by omega), some_bind, scaled_mod hbdigits (Nat.not_lt.mp hle)]
      exact congrArg some (decide_eq_decide.mpr hwrite.symm)

theorem write_eq_cons (n : Nat) : ∃ d < 10, ∃ u, write unit n = unit (Nat.digitChar d) :: u := by
  induction n using Nat.strongRecOn with
  | ind n ih =>
    rcases Nat.lt_or_ge n 10 with hlt | hge
    . exact ⟨n, hlt, [], write_of_lt unit hlt⟩
    . obtain ⟨d, hd, u, hu⟩ := ih (n / 10) (by omega)
      exact ⟨d, hd, _, by rw [write_of_ge unit hge, hu, cons_append]⟩

theorem minus_lt_digit : ∀ d < 10, unit '-' < unit (Nat.digitChar d) := by
  decide

theorem minus_lt_write (s : List CharT) (n : Nat) : unit '-' :: s < write unit n := by
  obtain ⟨d, hd, u, hu⟩ := write_eq_cons n
  rw [hu, cons_lt_cons_iff]
  exact .inl (minus_lt_digit d hd)

theorem Int32ToString_of_neg {i : Int32} (h : i.toInt < 0)
    : Int32ToString i = unit '-' :: write unit i.toInt.natAbs := by
  rw [Int32ToString, if_pos h]
  rfl

theorem Int32ToString_of_nonneg {i : Int32} (h : ¬i.toInt < 0)
    : Int32ToString i = write unit i.toInt.natAbs := by
  rw [Int32ToString, if_neg h]
  rfl

theorem natAbs_lt (i : Int32) : i.toInt.natAbs < 2 ^ 32 := by
  have hle := Int32.le_toInt i
  have hlt := Int32.toInt_lt i
  omega

theorem CompareLexicographicInt32_eq (a b : Int32)
    : CompareLexicographicInt32 a b = some (decide (Int32ToString a ≤ Int32ToString b)) := by
  rw [CompareLexicographicInt32]
  split
  next heq => rw [Int32.toInt_inj.mp heq, decide_eq_true (List.le_refl _)]
  next hne =>
  split
  next hsigns =>
    rw [Int32ToString_of_neg hsigns.1, Int32ToString_of_nonneg (Int.not_lt.mpr hsigns.2),
      decide_eq_true (List.le_of_lt (minus_lt_write ..))]
  next hneg =>
  split
  next hsigns =>
    rw [Int32ToString_of_nonneg (Int.not_lt.mpr hsigns.1), Int32ToString_of_neg hsigns.2,
      decide_eq_false (List.not_le.mpr (minus_lt_write ..))]
  next hpos =>
    have hne : a.toInt.natAbs ≠ b.toInt.natAbs := by omega
    have hmagnitudes := compareMagnitudes_eq hne (natAbs_lt a) (natAbs_lt b)
    refine hmagnitudes.trans (congrArg some (decide_eq_decide.mpr ?_))
    by_cases ha : a.toInt < 0
    . rw [Int32ToString_of_neg ha, Int32ToString_of_neg (by omega), cons_le_cons_iff]
      exact ⟨fun h => .inr ⟨rfl, h⟩, fun h => (h.resolve_left (BitVec.lt_irrefl _)).2⟩
    . rw [Int32ToString_of_nonneg ha, Int32ToString_of_nonneg (by omega)]

end

section

variable {α : Type} {c c' : α → α → Bool}

theorem moveLeft_congr {before : List α} (h : ∀ y ∈ before, c y x = c' y x)
    : moveLeft c before x = moveLeft c' before x := by
  induction before with
  | nil => rfl
  | cons y before ih =>
    rw [moveLeft, moveLeft, h y mem_cons_self, ih fun z hz => h z (mem_cons_of_mem y hz)]

theorem insertionSort_congr {chunk : List α} (h : ∀ a ∈ chunk, ∀ b ∈ chunk, c a b = c' a b)
    : insertionSort c chunk = insertionSort c' chunk := by
  have hfoldl (before rest : List α) (hmem : ∀ a ∈ before ++ rest, a ∈ chunk)
      : rest.foldl (moveLeft c) before = rest.foldl (moveLeft c') before := by
    induction rest generalizing before with
    | nil => rfl
    | cons x rest ih =>
      have hmove : moveLeft c before x = moveLeft c' before x := by
        apply moveLeft_congr
        intro y hy
        exact h y (hmem y (mem_append_left _ hy)) x (hmem x (mem_append_right _ mem_cons_self))
      rw [foldl_cons, foldl_cons, ← hmove]
      apply ih
      intro a ha
      apply hmem
      have hperm := ((moveLeft_perm c before x).append_right rest).trans perm_middle.symm
      exact hperm.mem_iff.mp ha
  exact congrArg List.reverse (hfoldl [] chunk fun a ha => ha)

theorem sortChunks_congr {array : List α} (h : ∀ a ∈ array, ∀ b ∈ array, c a b = c' a b)
    : sortChunks c array = sortChunks c' array := by
  induction array using sortChunks.induct with
  | case1 => rw [sortChunks, if_pos rfl, sortChunks, if_pos rfl]
  | case2 array hne ih =>
    conv_rhs => rw [sortChunks, if_neg hne]
    rw [sortChunks, if_neg hne, ih fun a ha b hb => h a (mem_of_mem_drop ha) b (mem_of_mem_drop hb),
      insertionSort_congr fun a ha b hb => h a (mem_of_mem_take ha) b (mem_of_mem_take hb)]

theorem MergeArrayRuns_congr (h : ∀ a ∈ run1, ∀ b ∈ run2, c a b = c' a b)
    : MergeArrayRuns c run1 run2 = MergeArrayRuns c' run1 run2 := by
  have hmerge := map_merge (f := id) h
  rw [map_id, map_id, map_id] at hmerge
  unfold MergeArrayRuns
  split
  next x y hlast hhead => rw [h x (mem_of_getLast? hlast) y (mem_of_head? hhead), hmerge]
  next => rfl

theorem mergePass_congr (run : Nat) {vec : List α} (h : ∀ a ∈ vec, ∀ b ∈ vec, c a b = c' a b)
    : mergePass c run vec = mergePass c' run vec := by
  induction vec using mergePass.induct run with
  | case1 vec hlast => rw [mergePass, if_pos hlast, mergePass, if_pos hlast]
  | case2 vec hmore ih =>
    conv_rhs => rw [mergePass, if_neg hmore]
    rw [mergePass, if_neg hmore, ih fun a ha b hb => h a (mem_of_mem_drop ha) b (mem_of_mem_drop hb),
      MergeArrayRuns_congr fun a ha b hb =>
        h a (mem_of_mem_take ha) b (mem_of_mem_drop (mem_of_mem_take hb))]

theorem mergePasses_congr (nelems run : Nat) {vec : List α} (h : ∀ a ∈ vec, ∀ b ∈ vec, c a b = c' a b)
    : mergePasses c nelems run vec = mergePasses c' nelems run vec := by
  induction run, vec using mergePasses.induct c nelems with
  | case1 run vec hlast => rw [mergePasses, if_pos hlast, mergePasses, if_pos hlast]
  | case2 run vec hmore ih =>
    have hmem (a : α) := (mergePass_perm c run vec).mem_iff (a := a)
    conv_rhs => rw [mergePasses, if_neg hmore]
    rw [mergePasses, if_neg hmore, ih fun a ha b hb => h a ((hmem a).mp ha) b ((hmem b).mp hb), mergePass_congr run h]

theorem MergeSort_congr {array : List α} (h : ∀ a ∈ array, ∀ b ∈ array, c a b = c' a b)
    : MergeSort c array = MergeSort c' array := by
  have hmem (a : α) := (sortChunks_perm c array).mem_iff (a := a)
  rw [MergeSort, MergeSort, ← sortChunks_congr h,
    mergePasses_congr _ _ fun a ha b hb => h a ((hmem a).mp ha) b ((hmem b).mp hb)]

end

section

variable {κ α : Type} {keys : List (SortElement κ)} {vec : List α} {comparator comparator' : κ → κ → Bool}

theorem MergeSortByKey_congr (h : ∀ a ∈ keys, ∀ b ∈ keys, comparator a.key b.key = comparator' a.key b.key)
    : MergeSortByKey keys comparator vec = MergeSortByKey keys comparator' vec := by
  rw [MergeSortByKey, MergeSortByKey, MergeSort_congr h]

theorem mergeSort_zip {γ : Type} {ks : List κ} {f : κ → γ} {g : α → γ} (h : ks.map f = vec.map g) (le : γ → γ → Bool)
    : ((ks.zip vec).mergeSort fun a b => le (f a.1) (f b.1)).map Prod.snd
      = vec.mergeSort fun x y => le (g x) (g y) := by
  have hkey (p : κ × α) (hp : p ∈ ks.zip vec) : f p.1 = g p.2 := by
    obtain ⟨i, hi, rfl⟩ := getElem_of_mem hp
    rw [getElem_zip]
    rw [length_zip] at hi
    have hi' := congrArg (·[i]?) h
    rw [List.getElem?_map, List.getElem?_map, List.getElem?_eq_getElem (by omega),
      List.getElem?_eq_getElem (by omega)] at hi'
    exact Option.some_inj.mp hi'
  have hlength : ks.length = vec.length := by
    have hlengths := congrArg List.length h
    rwa [length_map, length_map] at hlengths
  rw [map_mergeSort (s := fun x y => le (g x) (g y)) fun a ha b hb => by rw [hkey a ha, hkey b hb],
    map_snd_zip (Nat.le_of_eq hlength.symm)]

theorem MergeSortByKey_ok {γ : Type} {f : κ → γ} {g : α → γ} {le : γ → γ → Bool} (h : TotalPreorder le)
    (hindex : keys.map (·.elementIndex) = List.range vec.length) (hkeys : (keys.map (·.key)).map f = vec.map g)
    : MergeSortByKey keys (fun a b => le (f a) (f b)) vec = some (vec.mergeSort fun x y => le (g x) (g y)) := by
  have hlength : keys.length = vec.length := by
    have hlengths := congrArg List.length hindex
    rwa [length_map, length_range] at hlengths
  rw [← hlength] at hindex
  rw [MergeSortByKey_eq (h.comap f) hindex (Nat.le_of_eq hlength), mergeSort_zip hkeys, hlength, drop_length,
    append_nil]

end

section

namespace Double

-- NaN is put after all other numbers, where the comparison of numbers says nothing about it.
def nanLast (a b : Double) : Bool := b = .nan || a.le b

theorem nanLast_eq {a b : Double} (h : b ≠ .nan) : a.nanLast b = a.le b := by
  rw [nanLast, decide_eq_false h, Bool.false_or]

theorem nanLast_totalPreorder : TotalPreorder nanLast where
  trans a b c := by
    rcases a with a | (_ | _) | _ <;> rcases b with b | (_ | _) | _ <;> rcases c with c | (_ | _) | _
      <;> simp [nanLast, le]
    exact Int.le_trans
  total a b := by
    rcases a with a | (_ | _) | _ <;> rcases b with b | (_ | _) | _ <;> simp [nanLast, le]
    exact Int.le_total a b

end Double

variable {Other : Type} (conversions : Conversions Other)

def asString (x : Value Other) : List CharT := (ToString conversions x).getD []

def asNumber (x : Value Other) : Double := (ToNumber conversions x).getD .nan

def directed {α : Type} (comp : ComparatorMatchResult) (le : α → α → Bool) : α → α → Bool :=
  if comp = .Match_RightMinusLeft then fun a b => le b a else le

def lexicographicLe (x y : Value Other) : Bool := asString conversions x ≤ asString conversions y

def numericLe (comp : ComparatorMatchResult) (x y : Value Other) : Bool :=
  directed comp Double.nanLast (asNumber conversions x) (asNumber conversions y)

end

section

variable {α : Type} {le : α → α → Bool} {comp : ComparatorMatchResult}

theorem directed_totalPreorder (h : TotalPreorder le) (comp : ComparatorMatchResult)
    : TotalPreorder (directed comp le) := by
  unfold directed
  split
  . exact h.flip
  . exact h

theorem directed_congr (comp : ComparatorMatchResult) (h : le a b = le' a b) (h' : le b a = le' b a)
    : directed comp le a b = directed comp le' a b := by
  unfold directed
  split
  . exact h'
  . exact h

end

section

variable {Other : Type} {conversions : Conversions Other} {vec : List (Value Other)}

theorem lexicographicLe_totalPreorder : TotalPreorder (lexicographicLe conversions) where
  trans x y z hxy hyz := by
    rw [lexicographicLe, decide_eq_true_eq] at hxy hyz ⊢
    exact List.le_trans hxy hyz
  total x y := by
    rw [lexicographicLe, lexicographicLe, Bool.or_eq_true, decide_eq_true_eq, decide_eq_true_eq]
    exact List.le_total _ _

theorem numericLe_totalPreorder (comp : ComparatorMatchResult) : TotalPreorder (numericLe conversions comp) :=
  (directed_totalPreorder Double.nanLast_totalPreorder comp).comap (asNumber conversions)

theorem stringify_ok (h : ∀ v ∈ vec, (ToString conversions v).isSome) (i : Nat) (sb : List CharT)
    : ∃ strElements rest, stringify conversions vec i sb = .ok (strElements, sb ++ rest)
      ∧ strElements.map (·.elementIndex) = List.range' i vec.length
      ∧ (strElements.map (·.key)).map (fun e => Overwrite.slice (sb ++ rest) e.charsBegin (e.charsEnd - e.charsBegin))
        = vec.map (asString conversions) := by
  induction vec generalizing i sb with
  | nil => exact ⟨[], [], by rw [append_nil]; rfl, rfl, rfl⟩
  | cons v vec ih =>
    obtain ⟨s, hs⟩ := Option.isSome_iff_exists.mp (h v mem_cons_self)
    obtain ⟨strElements, rest, hstringify, hindex, hranges⟩ :=
      ih (fun w hw => h w (mem_cons_of_mem v hw)) (i + 1) (sb ++ s)
    have hslice : Overwrite.slice (sb ++ (s ++ rest)) sb.length ((sb ++ s).length - sb.length) = s := by
      have hright := Overwrite.slice_append_right sb (s ++ rest) 0 s.length
      rw [length_append, Nat.add_sub_cancel_left]
      rw [Nat.add_zero] at hright
      rw [hright, Overwrite.slice, drop_zero, take_left]
    have hnext : stringify conversions (v :: vec) i sb
        = .ok ({ key := { charsBegin := sb.length, charsEnd := (sb ++ s).length }, elementIndex := i } :: strElements,
          sb ++ s ++ rest) := by
      rw [stringify, hs]
      change (stringify conversions vec (i + 1) (sb ++ s) >>= _) = _
      rw [hstringify]
      rfl
    rw [append_assoc] at hnext
    refine ⟨_, s ++ rest, hnext, ?_, ?_⟩
    . rw [map_cons, hindex]
      rfl
    . rw [map_cons, map_cons, map_cons, asString, hs, hslice, ← append_assoc, hranges]
      rfl

theorem exists_none_of_cons {α β : Type} {f : α → Option β} {v : α} {vec : List α} {s : β}
    (h : ∃ w ∈ v :: vec, f w = none) (hs : f v = some s) : ∃ w ∈ vec, f w = none := by
  obtain ⟨w, hw, hnone⟩ := h
  rcases mem_cons.mp hw with rfl | hw
  . rw [hs] at hnone
    exact absurd hnone (Option.some_ne_none s)
  . exact ⟨w, hw, hnone⟩

theorem stringify_error (h : ∃ v ∈ vec, ToString conversions v = none) (i : Nat) (sb : List CharT)
    : stringify conversions vec i sb = .error .exception := by
  induction vec generalizing i sb with
  | nil =>
    obtain ⟨v, hv, _⟩ := h
    exact absurd hv not_mem_nil
  | cons v vec ih =>
    rw [stringify]
    cases hs : ToString conversions v with
    | none => rfl
    | some s =>
      change (stringify conversions vec (i + 1) (sb ++ s) >>= _) = _
      rw [ih (exists_none_of_cons h hs)]
      rfl

theorem SortLexicographically_ok (h : ∀ v ∈ vec, (ToString conversions v).isSome)
    : SortLexicographically conversions vec = .ok (vec.mergeSort (lexicographicLe conversions)) := by
  obtain ⟨strElements, sb, hstringify, hindex, hranges⟩ := stringify_ok h 0 []
  have hsort := MergeSortByKey_ok compareChars_totalPreorder (hindex.trans range_eq_range'.symm) hranges
  have hle : (fun x y => decide (CompareChars (asString conversions x) (asString conversions y) ≤ 0))
      = lexicographicLe conversions := by
    funext x y
    exact decide_eq_decide.mpr (CompareChars_le_iff _ _)
  rw [SortLexicographically, hstringify]
  rw [← hle]
  exact congrArg asserted hsort

theorem SortLexicographically_error (h : ∃ v ∈ vec, ToString conversions v = none)
    : SortLexicographically conversions vec = .error .exception := by
  rw [SortLexicographically, stringify_error h]
  rfl

theorem numericElements_ok (h : ∀ v ∈ vec, (ToNumber conversions v).isSome) (i : Nat)
    : ∃ numElements, numericElements conversions vec i = .ok numElements
      ∧ numElements.map (·.elementIndex) = List.range' i vec.length
      ∧ numElements.map (·.key) = vec.map (asNumber conversions) := by
  induction vec generalizing i with
  | nil => exact ⟨[], rfl, rfl, rfl⟩
  | cons v vec ih =>
    obtain ⟨dv, hdv⟩ := Option.isSome_iff_exists.mp (h v mem_cons_self)
    obtain ⟨numElements, hnumElements, hindex, hkeys⟩ := ih (fun w hw => h w (mem_cons_of_mem v hw)) (i + 1)
    have hnext : numericElements conversions (v :: vec) i = .ok ({ key := dv, elementIndex := i } :: numElements) := by
      rw [numericElements, hdv]
      rw [hnumElements]
      rfl
    refine ⟨_, hnext, ?_, ?_⟩
    . rw [map_cons, hindex]
      rfl
    . rw [map_cons, map_cons, asNumber, hdv, hkeys]
      rfl

theorem numericElements_error (h : ∃ v ∈ vec, ToNumber conversions v = none) (i : Nat)
    : numericElements conversions vec i = .error .exception := by
  induction vec generalizing i with
  | nil =>
    obtain ⟨v, hv, _⟩ := h
    exact absurd hv not_mem_nil
  | cons v vec ih =>
    rw [numericElements]
    cases hdv : ToNumber conversions v with
    | none => rfl
    | some dv =>
      rw [ih (exists_none_of_cons h hdv)]
      rfl

variable {comp : ComparatorMatchResult}

theorem SortComparatorNumerics_eq (hcomp : comp = .Match_LeftMinusRight ∨ comp = .Match_RightMinusLeft)
    : SortComparatorNumerics comp = some (directed comp Double.le) := by
  rcases hcomp with rfl | rfl <;> rfl

theorem SortComparatorInt32s_eq (hcomp : comp = .Match_LeftMinusRight ∨ comp = .Match_RightMinusLeft)
    : SortComparatorInt32s comp
      = some (directed comp fun x y : Value Other => (toInt32 x).toInt ≤ (toInt32 y).toInt) := by
  rcases hcomp with rfl | rfl <;> rfl

theorem SortNumerically_ok (hcomp : comp = .Match_LeftMinusRight ∨ comp = .Match_RightMinusLeft)
    (h : ∀ v ∈ vec, (ToNumber conversions v).isSome)
    : ∃ vec', SortNumerically conversions vec comp = .ok vec' ∧ vec'.Perm vec
      ∧ ((∀ v ∈ vec, asNumber conversions v ≠ .nan) → vec' = vec.mergeSort (numericLe conversions comp)) := by
  obtain ⟨numElements, hnumElements, hindex, hkeys⟩ := numericElements_ok h 0
  rw [← range_eq_range'] at hindex
  have hlength : numElements.length = vec.length := by
    have hlengths := congrArg List.length hindex
    rwa [length_map, length_range] at hlengths
  obtain ⟨vec', hsort, hperm⟩ := MergeSortByKey_perm (hlength ▸ hindex) (Nat.le_of_eq hlength) (directed comp Double.le)
  refine ⟨vec', ?_, hperm, fun hnan => ?_⟩
  . rw [SortNumerically, hnumElements, SortComparatorNumerics_eq hcomp]
    change asserted (MergeSortByKey numElements (directed comp Double.le) vec) = _
    rw [hsort]
    rfl
  have hkey (e : SortElement Double) (he : e ∈ numElements) : e.key ≠ .nan := by
    have hmem := mem_map_of_mem (f := (·.key)) he
    rw [hkeys] at hmem
    obtain ⟨v, hv, heq⟩ := mem_map.mp hmem
    rw [← heq]
    exact hnan v hv
  have hcongr : MergeSortByKey numElements (directed comp Double.le) vec
      = MergeSortByKey numElements (directed comp Double.nanLast) vec :=
    MergeSortByKey_congr fun a ha b hb =>
      directed_congr comp (Double.nanLast_eq (hkey b hb)).symm (Double.nanLast_eq (hkey a ha)).symm
  have hok := MergeSortByKey_ok (f := id) (directed_totalPreorder Double.nanLast_totalPreorder comp) hindex
    ((map_id _).trans hkeys)
  exact Option.some_inj.mp (hsort.symm.trans (hcongr.trans hok))

theorem SortNumerically_error (h : ∃ v ∈ vec, ToNumber conversions v = none)
    : SortNumerically conversions vec comp = .error .exception := by
  rw [SortNumerically, numericElements_error h]
  rfl

end

section

variable {Other : Type} {conversions : Conversions Other} {vec : List (Value Other)} (undefs : Nat)

def collectedOf (vec : List (Value Other)) (undefs : Nat) : Collected Other :=
  { vec := vec, undefs := undefs, allStrings := vec.all isString, allInts := vec.all isInt32 }

def isUndefined : Value Other → Bool
  | .undefined => true
  | _ => false

theorem collect_collectedOf (values : List (Value Other)) (v : Value Other)
    : collect (collectedOf (values.filter (!isUndefined ·)) (values.countP isUndefined)) v
      = collectedOf ((values ++ [v]).filter (!isUndefined ·)) ((values ++ [v]).countP isUndefined) := by
  cases v <;> simp [collect, collectedOf, isUndefined, isString, isInt32]

def present (elements : List (Option (Value Other))) : List (Value Other) := elements.filterMap id

def collected (values : List (Value Other)) : Collected Other :=
  collectedOf (values.filter (!isUndefined ·)) (values.countP isUndefined)

theorem foldlM_collectPacked {elements : List (Option (Value Other))} (h : none ∉ elements)
    (values : List (Value Other))
    : elements.foldlM collectPacked (collected values) = .ok (collected (values ++ present elements)) := by
  induction elements generalizing values with
  | nil => rw [present, filterMap_nil, append_nil]; rfl
  | cons element elements ih =>
    cases element with
    | none => exact absurd mem_cons_self h
    | some v =>
      change (elements.foldlM collectPacked (collect (collected values) v)) = _
      rw [collected, collect_collectedOf]
      change elements.foldlM collectPacked (collected (values ++ [v])) = _
      rw [ih fun hmem => h (mem_cons_of_mem _ hmem), append_assoc]
      rfl

theorem foldl_collectDense (elements : List (Option (Value Other))) (values : List (Value Other))
    : elements.foldl collectDense (collected values) = collected (values ++ present elements) := by
  induction elements generalizing values with
  | nil => rw [present, filterMap_nil, append_nil]; rfl
  | cons element elements ih =>
    rw [foldl_cons]
    cases element with
    | none => exact ih values
    | some v =>
      have hnext : collectDense (collected values) (some v) = collected (values ++ [v]) := collect_collectedOf values v
      rw [hnext, ih, append_assoc]
      rfl

theorem collectElements_eq (array : DenseArray Other)
    : collectElements array = .ok (collected (present array.elements)) := by
  rw [collectElements]
  by_cases hpacked : array.packed
  . rw [if_pos hpacked]
    exact foldlM_collectPacked (array.noHoles hpacked) []
  . rw [if_neg hpacked]
    exact congrArg Except.ok (foldl_collectDense array.elements [])

theorem allStrings_toChars (h : vec.all isString) : ∀ v ∈ vec, ToString conversions v = some (toChars v) := by
  intro v hv
  have hstring := all_eq_true.mp h v hv
  cases v <;> first | rfl | exact absurd hstring Bool.false_ne_true

theorem allInts_toInt32 (h : vec.all isInt32) : ∀ v ∈ vec, v = .int32 (toInt32 v) := by
  intro v hv
  have hint := all_eq_true.mp h v hv
  cases v <;> first | rfl | exact absurd hint Bool.false_ne_true

theorem int32LexicographicLe_totalPreorder
    : TotalPreorder fun x y : Value Other => SortComparatorLexicographicInt32 x y := by
  have heq : (fun x y : Value Other => SortComparatorLexicographicInt32 x y)
      = fun x y => decide (Int32ToString (toInt32 x) ≤ Int32ToString (toInt32 y)) := by
    funext x y
    rw [SortComparatorLexicographicInt32, CompareLexicographicInt32_eq, Option.getD_some]
  have hle : TotalPreorder fun s t : List CharT => decide (s ≤ t) := by
    have hchars := compareChars_totalPreorder
    simp only [CompareChars_le_iff] at hchars
    exact hchars
  rw [heq]
  exact hle.comap fun x : Value Other => Int32ToString (toInt32 x)

theorem sortValues_default_ok (h : ∀ v ∈ vec, (ToString conversions v).isSome)
    : sortValues conversions .Match_None (collectedOf vec undefs)
      = .ok (vec.mergeSort (lexicographicLe conversions)) := by
  rw [sortValues, if_pos rfl]
  by_cases hstrings : vec.all isString
  . rw [collectedOf, if_pos hstrings]
    have hchars (v : Value Other) (hv : v ∈ vec) : asString conversions v = toChars v := by
      rw [asString, allStrings_toChars hstrings v hv, Option.getD_some]
    have hsort := MergeSort_eq_mergeSort (compareChars_totalPreorder.comap fun x : Value Other => toChars x) vec
    have hcongr : vec.mergeSort SortComparatorStrings = vec.mergeSort (lexicographicLe conversions) :=
      StableSort.mergeSort_congr fun a ha b hb => by
        rw [SortComparatorStrings, lexicographicLe, hchars a ha, hchars b hb]
        exact decide_eq_decide.mpr (CompareChars_le_iff _ _)
    exact congrArg Except.ok (hsort.trans hcongr)
  rw [collectedOf, if_neg hstrings]
  by_cases hints : vec.all isInt32
  . rw [if_pos hints]
    have hint := allInts_toInt32 hints
    have hsort := MergeSort_eq_mergeSort int32LexicographicLe_totalPreorder vec
    have hcongr : vec.mergeSort SortComparatorLexicographicInt32 = vec.mergeSort (lexicographicLe conversions) :=
      StableSort.mergeSort_congr fun a ha b hb => by
        rw [SortComparatorLexicographicInt32, CompareLexicographicInt32_eq, Option.getD_some, lexicographicLe,
          hint a ha, hint b hb]
        rfl
    exact congrArg Except.ok (hsort.trans hcongr)
  . rw [if_neg hints]
    exact SortLexicographically_ok h

theorem sortValues_default_error (h : ∃ v ∈ vec, ToString conversions v = none)
    : sortValues conversions .Match_None (collectedOf vec undefs) = .error .exception := by
  obtain ⟨v, hv, hnone⟩ := h
  rw [sortValues, if_pos rfl]
  by_cases hstrings : vec.all isString
  . rw [collectedOf, if_pos hstrings]
    rw [allStrings_toChars hstrings v hv] at hnone
    exact absurd hnone (Option.some_ne_none _)
  rw [collectedOf, if_neg hstrings]
  by_cases hints : vec.all isInt32
  . rw [allInts_toInt32 hints v hv] at hnone
    exact absurd hnone (Option.some_ne_none _)
  . rw [if_neg hints]
    exact SortLexicographically_error ⟨v, hv, hnone⟩

variable {comp : ComparatorMatchResult}

theorem unitsPerOne_pos : 0 < Double.unitsPerOne := by
  rw [Double.unitsPerOne]
  generalize 1074 = exponent
  exact Nat.two_pow_pos exponent

theorem ofInt_ne_nan (i : Int) : Double.ofInt i ≠ .nan := by
  exact nofun

theorem ofInt_le (i j : Int) : (Double.ofInt i).le (Double.ofInt j) = decide (i ≤ j) := by
  have hpos : 0 < (Double.unitsPerOne : Int) := Int.natCast_pos.mpr unitsPerOne_pos
  exact decide_eq_decide.mpr (Int.mul_le_mul_iff_of_pos_right hpos)

theorem sortValues_numeric_ok (hcomp : comp = .Match_LeftMinusRight ∨ comp = .Match_RightMinusLeft)
    (h : ∀ v ∈ vec, (ToNumber conversions v).isSome)
    : ∃ vec', sortValues conversions comp (collectedOf vec undefs) = .ok vec' ∧ vec'.Perm vec
      ∧ ((∀ v ∈ vec, asNumber conversions v ≠ .nan) → vec' = vec.mergeSort (numericLe conversions comp)) := by
  have hne : comp ≠ .Match_None := by rcases hcomp with rfl | rfl <;> exact nofun
  rw [sortValues, if_neg hne]
  rw [collectedOf]
  by_cases hints : vec.all isInt32
  . rw [if_pos hints]
    have hint := allInts_toInt32 hints
    have hle : TotalPreorder fun i j : Int => decide (i ≤ j) :=
      ⟨fun i j k hij hjk => decide_eq_true (Int.le_trans (of_decide_eq_true hij) (of_decide_eq_true hjk)), fun i j => by
        rw [Bool.or_eq_true, decide_eq_true_eq, decide_eq_true_eq]
        exact Int.le_total i j⟩
    have hints := hle.comap fun x : Value Other => (toInt32 x).toInt
    have hsort := MergeSort_eq_mergeSort (directed_totalPreorder hints comp) vec
    have hcongr : vec.mergeSort (directed comp fun x y => (toInt32 x).toInt ≤ (toInt32 y).toInt)
        = vec.mergeSort (numericLe conversions comp) := by
      have hnumber (a b : Value Other) (ha : a ∈ vec) (hb : b ∈ vec)
          : decide ((toInt32 a).toInt ≤ (toInt32 b).toInt)
            = (asNumber conversions a).nanLast (asNumber conversions b) := by
        rw [← ofInt_le, hint a ha, hint b hb]
        exact (Double.nanLast_eq (ofInt_ne_nan _)).symm
      refine StableSort.mergeSort_congr fun a ha b hb => ?_
      unfold numericLe directed
      split
      . exact hnumber b a hb ha
      . exact hnumber a b ha hb
    rw [SortComparatorInt32s_eq hcomp]
    exact ⟨_, rfl, MergeSort_perm .., fun _ => hsort.trans hcongr⟩
  . rw [if_neg hints]
    exact SortNumerically_ok hcomp h

theorem sortValues_numeric_error (hcomp : comp = .Match_LeftMinusRight ∨ comp = .Match_RightMinusLeft)
    (h : ∃ v ∈ vec, ToNumber conversions v = none)
    : sortValues conversions comp (collectedOf vec undefs) = .error .exception := by
  have hne : comp ≠ .Match_None := by rcases hcomp with rfl | rfl <;> exact nofun
  obtain ⟨v, hv, hnone⟩ := h
  rw [sortValues, if_neg hne]
  rw [collectedOf]
  by_cases hints : vec.all isInt32
  . rw [if_pos hints]
    rw [allInts_toInt32 hints v hv] at hnone
    exact absurd hnone (Option.some_ne_none _)
  . rw [if_neg hints]
    exact SortNumerically_error ⟨v, hv, hnone⟩

end

end SpiderMonkey.ArraySort
