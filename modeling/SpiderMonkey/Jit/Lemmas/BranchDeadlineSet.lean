import Mathlib.Data.List.TakeWhile
import Mathlib.Algebra.BigOperators.Group.List.Basic
import SpiderMonkey.Lib.Loop
import SpiderMonkey.Jit.Impl.AssemblerBuffer

/-!
This module contains what the operations on a set of deadlines keep: its vectors stay in order, with the earliest
deadline at hand, and taking the earliest one out leaves the branches that are pending after it.
-/

namespace SpiderMonkey.BranchDeadlineSet

open List

variable {set : BranchDeadlineSet} {rangeIdx deadline r x : Nat} {vec : List Nat}

structure Valid (set : BranchDeadlineSet) : Prop where
  sorted (r : Nat) : (set.vectorForRange r).Pairwise (· ≤ ·)
  eq_nil : set.earliest = none → ∀ r, set.vectorForRange r = []
  head (d : Nat) : set.earliest = some d → (set.vectorForRange set.earliestRange).head? = some d
  least (d : Nat) : set.earliest = some d → ∀ r x, x ∈ set.vectorForRange r → d ≤ x

theorem vectorForRange_setVector
    : (set.setVector rangeIdx vec).vectorForRange r
        = if rangeIdx = r ∧ rangeIdx < set.vectors.length then vec else set.vectorForRange r := by
  simp only [vectorForRange, setVector, getD_eq_getElem?_getD, List.getElem?_set]
  split
  next heq =>
    subst heq
    split
    next hlt => simp [hlt]
    next hge => simp [hge]
  next hne => simp [hne]

theorem lt_length_of_ne_nil (h : set.vectorForRange r ≠ [])
    : r < set.vectors.length := by
  by_contra hge
  rw [vectorForRange, getD_eq_getElem?_getD, List.getElem?_eq_none (Nat.not_lt.mp hge)] at h
  exact h rfl

theorem recomputeEarliest_vectors
    : set.recomputeEarliest.vectors = set.vectors := by
  rw [recomputeEarliest]
  refine Loop.fold_inv _ _ _ (fun (_ : Nat) (set' : BranchDeadlineSet) => set'.vectors = set.vectors) rfl ?_
  intro i hi set' hset'
  split <;> try split
  all_goals exact hset'

theorem vectorForRange_recomputeEarliest
    : set.recomputeEarliest.vectorForRange r = set.vectorForRange r := by
  rw [vectorForRange, recomputeEarliest_vectors, vectorForRange]

structure Seen (set : BranchDeadlineSet) (i : Nat) (set' : BranchDeadlineSet) : Prop where
  vectors_eq : set'.vectors = set.vectors
  eq_nil : set'.earliest = none → ∀ r < i, set.vectorForRange r = []
  head (d : Nat) : set'.earliest = some d → (set.vectorForRange set'.earliestRange).head? = some d
  least (d : Nat) : set'.earliest = some d → ∀ r < i, ∀ x ∈ set.vectorForRange r, d ≤ x

theorem head_le_of_sorted (hsorted : vec.Pairwise (· ≤ ·)) (hd : vec.head? = some d)
    : ∀ x ∈ vec, d ≤ x := by
  cases vec with
  | nil => exact nomatch hd
  | cons first rest =>
    obtain rfl : first = d := Option.some.inj hd
    exact forall_mem_cons.mpr ⟨Nat.le_refl _, fun x hx => rel_of_pairwise_cons hsorted hx⟩

theorem seen_recomputeEarliest (hsorted : ∀ r, (set.vectorForRange r).Pairwise (· ≤ ·))
    : Seen set set.vectors.length set.recomputeEarliest := by
  rw [recomputeEarliest]
  refine Loop.fold_inv _ _ _ (Seen set) ?_ ?_
  . exact ⟨rfl, fun _ r hr => absurd hr (Nat.not_lt_zero r), (fun d hd => nomatch hd), fun d hd => nomatch hd⟩
  intro i hi set' hseen
  have hvec : set'.vectorForRange i = set.vectorForRange i := by
    rw [vectorForRange, hseen.vectors_eq, vectorForRange]
  rw [hvec]
  cases hhead : (set.vectorForRange i).head? with
  | none =>
    have hnil : set.vectorForRange i = [] := List.head?_eq_none_iff.mp hhead
    refine ⟨hseen.vectors_eq, fun hnone r hr => ?_, hseen.head, fun d hd r hr x hx => ?_⟩
    . rcases Nat.lt_succ_iff_lt_or_eq.mp hr with hr | rfl
      . exact hseen.eq_nil hnone r hr
      . exact hnil
    rcases Nat.lt_succ_iff_lt_or_eq.mp hr with hr | rfl
    . exact hseen.least d hd r hr x hx
    . rw [hnil] at hx
      exact nomatch hx
  | some first =>
    have hfirst := head_le_of_sorted (hsorted i) hhead
    cases hearliest : set'.earliest with
    | none =>
      refine ⟨hseen.vectors_eq, (fun hnone => nomatch hnone), fun d hd => ?_, fun d hd r hr x hx => ?_⟩
      . obtain rfl : first = d := Option.some.inj hd
        exact hhead
      obtain rfl : first = d := Option.some.inj hd
      rcases Nat.lt_succ_iff_lt_or_eq.mp hr with hr | rfl
      . rw [hseen.eq_nil hearliest r hr] at hx
        exact nomatch hx
      . exact hfirst x hx
    | some earliest =>
      dsimp only
      split
      next hlt =>
        refine ⟨hseen.vectors_eq, (fun hnone => nomatch hnone), fun d hd => ?_, fun d hd r hr x hx => ?_⟩
        . obtain rfl : first = d := Option.some.inj hd
          exact hhead
        obtain rfl : first = d := Option.some.inj hd
        rcases Nat.lt_succ_iff_lt_or_eq.mp hr with hr | rfl
        . exact Nat.le_trans (Nat.le_of_lt hlt) (hseen.least earliest hearliest r hr x hx)
        . exact hfirst x hx
      next hge =>
        refine ⟨hseen.vectors_eq, fun hnone => ?_, hseen.head, fun d hd r hr x hx => ?_⟩
        . rw [hearliest] at hnone
          exact nomatch hnone
        rcases Nat.lt_succ_iff_lt_or_eq.mp hr with hr | rfl
        . exact hseen.least d hd r hr x hx
        rw [hearliest] at hd
        obtain rfl : earliest = d := Option.some.inj hd
        exact Nat.le_trans (Nat.not_lt.mp hge) (hfirst x hx)

theorem recomputeEarliest_valid (hsorted : ∀ r, (set.vectorForRange r).Pairwise (· ≤ ·))
    : set.recomputeEarliest.Valid := by
  have hseen := seen_recomputeEarliest hsorted
  refine ⟨fun r => ?_, fun hnone r => ?_, fun d hd => ?_, fun d hd r x hx => ?_⟩
  . rw [vectorForRange_recomputeEarliest]
    exact hsorted r
  . rw [vectorForRange_recomputeEarliest]
    by_contra hne
    exact hne (hseen.eq_nil hnone r (lt_length_of_ne_nil hne))
  . rw [vectorForRange_recomputeEarliest]
    exact hseen.head d hd
  . rw [vectorForRange_recomputeEarliest] at hx
    exact hseen.least d hd r (lt_length_of_ne_nil (ne_nil_of_mem hx)) x hx

theorem updateEarliest_vectors
    : (set.updateEarliest rangeIdx deadline).vectors = set.vectors := by
  rw [updateEarliest]
  split
  . rfl
  . split <;> rfl

theorem vectorForRange_updateEarliest
    : (set.updateEarliest rangeIdx deadline).vectorForRange r = set.vectorForRange r := by
  rw [vectorForRange, updateEarliest_vectors, vectorForRange]

theorem updateEarliest_valid (h : set.Valid) (hlt : rangeIdx < set.vectors.length) (hsorted : vec.Pairwise (· ≤ ·))
    (hmem : ∀ y, y ∈ vec ↔ y = deadline ∨ y ∈ set.vectorForRange rangeIdx)
    : ((set.setVector rangeIdx vec).updateEarliest rangeIdx deadline).Valid := by
  have hvector (r : Nat) : ((set.setVector rangeIdx vec).updateEarliest rangeIdx deadline).vectorForRange r
      = if rangeIdx = r then vec else set.vectorForRange r := by
    rw [vectorForRange_updateEarliest, vectorForRange_setVector]
    simp only [hlt, and_true]
  have hhead {d : Nat} (hd : d ∈ vec) (hle : ∀ y ∈ vec, d ≤ y) : vec.head? = some d := by
    cases vec with
    | nil => exact nomatch hd
    | cons first rest =>
      have hfirst := @head_le_of_sorted _ first hsorted rfl d hd
      have := hle first mem_cons_self
      rw [show first = d by omega]
      rfl
  have hcases {r x : Nat} (hx : x ∈ if rangeIdx = r then vec else set.vectorForRange r)
      : x = deadline ∨ ∃ r, x ∈ set.vectorForRange r := by
    split at hx
    . exact ((hmem x).mp hx).imp_right fun hx => ⟨_, hx⟩
    . exact Or.inr ⟨_, hx⟩
  have hdeadline : deadline ∈ vec := (hmem deadline).mpr (Or.inl rfl)
  have hset : (set.setVector rangeIdx vec).earliest = set.earliest := rfl
  refine ⟨fun r => ?_, fun hnone r => ?_, fun d hd => ?_, fun d hd r x hx => ?_⟩
  . rw [hvector]
    split
    . exact hsorted
    . exact h.sorted r
  . rw [updateEarliest, hset] at hnone
    split at hnone
    . exact nomatch hnone
    next hearliest =>
      split at hnone
      . exact nomatch hnone
      . rw [hset, hearliest] at hnone
        exact nomatch hnone
  . rw [hvector]
    rw [updateEarliest, hset] at hd ⊢
    split at hd
    next hearliest =>
      obtain rfl : deadline = d := Option.some.inj hd
      simp only [↓reduceIte]
      refine hhead hdeadline fun y hy => ?_
      rcases (hmem y).mp hy with rfl | hy
      . exact Nat.le_refl _
      . rw [h.eq_nil hearliest] at hy
        exact nomatch hy
    next earliest hearliest =>
      split at hd
      next hlt' =>
        obtain rfl : deadline = d := Option.some.inj hd
        simp only [hlt', ↓reduceIte]
        refine hhead hdeadline fun y hy => ?_
        rcases (hmem y).mp hy with rfl | hy
        . exact Nat.le_refl _
        . have := h.least earliest hearliest _ y hy
          omega
      next hge =>
        rw [hset, hearliest] at hd
        obtain rfl : earliest = d := Option.some.inj hd
        have hfirst := h.head earliest hearliest
        simp only [hge, ↓reduceIte]
        split
        next hrange =>
          have hrange : rangeIdx = set.earliestRange := hrange
          rw [← hrange] at hfirst
          refine hhead ((hmem earliest).mpr (Or.inr (mem_of_head? hfirst))) fun y hy => ?_
          rcases (hmem y).mp hy with rfl | hy
          . exact Nat.not_lt.mp hge
          . exact h.least earliest hearliest _ y hy
        . exact hfirst
  . rw [hvector] at hx
    rw [updateEarliest, hset] at hd
    split at hd
    next hearliest =>
      obtain rfl : deadline = d := Option.some.inj hd
      rcases hcases hx with rfl | ⟨r, hx⟩
      . exact Nat.le_refl _
      . rw [h.eq_nil hearliest] at hx
        exact nomatch hx
    next earliest hearliest =>
      split at hd
      next hlt' =>
        obtain rfl : deadline = d := Option.some.inj hd
        rcases hcases hx with rfl | ⟨r, hx⟩
        . exact Nat.le_refl _
        . have := h.least earliest hearliest _ x hx
          omega
      next hge =>
        rw [hset, hearliest] at hd
        obtain rfl : earliest = d := Option.some.inj hd
        rcases hcases hx with rfl | ⟨r, hx⟩
        . exact Nat.not_lt.mp hge
        . exact h.least earliest hearliest _ x hx

theorem setVector_valid (h : set.Valid) (hsorted : vec.Pairwise (· ≤ ·)) (hnil : set.earliest = none → vec = [])
    (hhead : ∀ d, set.earliest = some d → rangeIdx = set.earliestRange → vec.head? = some d)
    (hle : ∀ d, set.earliest = some d → ∀ y ∈ vec, d ≤ y)
    : (set.setVector rangeIdx vec).Valid := by
  refine ⟨fun r => ?_, fun hnone r => ?_, fun d hd => ?_, fun d hd r x hx => ?_⟩
  . rw [vectorForRange_setVector]
    split
    . exact hsorted
    . exact h.sorted r
  . rw [vectorForRange_setVector]
    split
    . exact hnil hnone
    . exact h.eq_nil hnone r
  . rw [vectorForRange_setVector]
    split
    next hrange => exact hhead d hd hrange.left
    . exact h.head d hd
  . rw [vectorForRange_setVector] at hx
    split at hx
    . exact hle d hd x hx
    . exact h.least d hd r x hx

theorem insert_sorted {vec : List Nat} (hsorted : vec.Pairwise (· ≤ ·))
    : (vec.takeWhile (· < deadline) ++ deadline :: vec.dropWhile (· < deadline)).Pairwise (· ≤ ·) := by
  induction vec with
  | nil => simp
  | cons first rest ih =>
    have hfirst {y : Nat} (hy : y ∈ rest) : first ≤ y := rel_of_pairwise_cons hsorted hy
    by_cases hlt : first < deadline
    . have hmem : ∀ y ∈ rest.takeWhile (· < deadline) ++ deadline :: rest.dropWhile (· < deadline), first ≤ y := by
        intro y hy
        rcases mem_append.mp hy with hy | hy
        . exact hfirst ((takeWhile_sublist _).subset hy)
        cases hy with
        | head => exact Nat.le_of_lt hlt
        | tail _ hy => exact hfirst ((dropWhile_sublist _).subset hy)
      simp only [takeWhile_cons, dropWhile_cons, hlt, decide_true, ↓reduceIte, cons_append]
      exact pairwise_cons.mpr ⟨hmem, ih (pairwise_cons.mp hsorted).right⟩
    . simp only [takeWhile_cons, dropWhile_cons, hlt, decide_false, Bool.false_eq_true, ↓reduceIte, nil_append]
      refine pairwise_cons.mpr ⟨fun y hy => ?_, hsorted⟩
      cases hy with
      | head => omega
      | tail _ hy =>
        have := hfirst hy
        omega

theorem addDeadline_valid (h : set.Valid) (hlt : rangeIdx < set.vectors.length)
    : (set.addDeadline rangeIdx deadline).Valid := by
  rw [addDeadline]
  cases hback : (set.vectorForRange rangeIdx).getLast? with
  | none =>
    have hnil : set.vectorForRange rangeIdx = [] := List.getLast?_eq_none_iff.mp hback
    exact updateEarliest_valid h hlt (pairwise_singleton _ _) (fun y => by simp [hnil])
  | some back =>
    dsimp only
    split
    next hback' =>
      have hne : set.vectorForRange rangeIdx ≠ [] := ne_nil_of_mem (mem_of_getLast? hback)
      have hsorted := h.sorted rangeIdx
      have hle {y : Nat} (hy : y ∈ set.vectorForRange rangeIdx) : y < deadline := by
        obtain ⟨front, hfront⟩ := List.getLast?_eq_some_iff.mp hback
        rw [hfront] at hy hsorted
        rcases mem_append.mp hy with hy | hy
        . have := (pairwise_append.mp hsorted).right.right y hy back (mem_singleton_self _)
          omega
        . rw [mem_singleton.mp hy]
          exact hback'
      apply setVector_valid h
      . refine pairwise_append.mpr ⟨hsorted, pairwise_singleton _ _, fun y hy z hz => ?_⟩
        rw [mem_singleton.mp hz]
        exact Nat.le_of_lt (hle hy)
      . exact fun hnone => absurd (h.eq_nil hnone rangeIdx) hne
      . intro d hd hrange
        have hfirst := h.head d hd
        rw [← hrange] at hfirst
        rw [List.head?_append, hfirst]
        rfl
      . intro d hd y hy
        obtain ⟨z, hz⟩ := exists_mem_of_ne_nil _ hne
        have hdz := h.least d hd rangeIdx z hz
        rcases mem_append.mp hy with hy | hy
        . exact h.least d hd rangeIdx y hy
        have := hle hz
        rw [mem_singleton.mp hy]
        omega
    next hback' =>
      apply updateEarliest_valid h hlt (insert_sorted (h.sorted rangeIdx))
      intro y
      rw [mem_append, mem_cons]
      conv => rhs; rw [← @takeWhile_append_dropWhile _ (· < deadline) (set.vectorForRange rangeIdx)]
      rw [mem_append]
      tauto

theorem dropWhile_eq_cons {vec : List Nat} (hsorted : vec.Pairwise (· ≤ ·)) (hmem : deadline ∈ vec)
    : ∃ after, vec.dropWhile (· < deadline) = deadline :: after ∧ ∀ y ∈ after, deadline ≤ y := by
  have hsplit := @takeWhile_append_dropWhile _ (· < deadline) vec
  have hdrop : deadline ∈ vec.dropWhile (· < deadline) := by
    rw [← hsplit] at hmem
    rcases mem_append.mp hmem with hmem | hmem
    . have := mem_takeWhile_imp hmem
      simp at this
    . exact hmem
  have hsorted' := hsorted.sublist (dropWhile_sublist (· < deadline))
  cases hrest : vec.dropWhile (· < deadline) with
  | nil =>
    rw [hrest] at hdrop
    exact nomatch hdrop
  | cons found after =>
    rw [hrest] at hdrop hsorted'
    have hge : ¬found < deadline := by
      have := @head_dropWhile_not _ (· < deadline) vec (by rw [hrest]; simp)
      simpa [hrest] using this
    have hle : found ≤ deadline := by
      cases hdrop with
      | head => exact Nat.le_refl _
      | tail _ hdrop => exact rel_of_pairwise_cons hsorted' hdrop
    obtain rfl : found = deadline := by omega
    exact ⟨after, rfl, fun y hy => rel_of_pairwise_cons hsorted' hy⟩

theorem exists_removeDeadline (hsorted : ∀ r, (set.vectorForRange r).Pairwise (· ≤ ·))
    (hmem : deadline ∈ set.vectorForRange rangeIdx)
    : ∃ before after, set.vectorForRange rangeIdx = before ++ deadline :: after ∧ (∀ y ∈ before, y < deadline)
      ∧ set.removeDeadline rangeIdx deadline
          = if set.earliest = some deadline then (set.setVector rangeIdx (before ++ after)).recomputeEarliest
            else set.setVector rangeIdx (before ++ after) := by
  have hsplit := @takeWhile_append_dropWhile _ (· < deadline) (set.vectorForRange rangeIdx)
  obtain ⟨after, hdrop, hafter⟩ := dropWhile_eq_cons (hsorted rangeIdx) hmem
  rw [hdrop] at hsplit
  have hbefore : ∀ y ∈ (set.vectorForRange rangeIdx).takeWhile (· < deadline), y < deadline := fun y hy => by
    simpa using mem_takeWhile_imp hy
  refine ⟨_, after, hsplit.symm, hbefore, ?_⟩
  rw [removeDeadline]
  simp only [hdrop, ne_eq, not_true_eq_false, ↓reduceIte]
  split
  next hlast =>
    obtain ⟨front, hfront⟩ := List.getLast?_eq_some_iff.mp hlast
    have hreplicate : deadline :: after = after ++ [deadline] := by
      have hall : ∀ y ∈ after, y = deadline := by
        intro y hy
        have hin : y ∈ front ++ [deadline] := by
          rw [← hfront, ← hsplit]
          exact mem_append_right _ (mem_cons_of_mem _ hy)
        have hsorted := hsorted rangeIdx
        rw [hfront] at hsorted
        have hge := hafter y hy
        rcases mem_append.mp hin with hin | hin
        . have := (pairwise_append.mp hsorted).right.right y hin deadline (mem_singleton_self _)
          omega
        . exact mem_singleton.mp hin
      rw [eq_replicate_iff.mpr ⟨rfl, hall⟩, ← replicate_succ, ← replicate_succ']
    have hdropLast : (set.vectorForRange rangeIdx).dropLast
        = (set.vectorForRange rangeIdx).takeWhile (· < deadline) ++ after := by
      rw [hreplicate, ← append_assoc] at hsplit
      nth_rewrite 1 [← hsplit]
      rw [dropLast_concat]
    rw [hdropLast]
    rfl
  next hlast => rfl

theorem removeDeadline_of_not_mem (hmem : deadline ∉ set.vectorForRange rangeIdx)
    : set.removeDeadline rangeIdx deadline = set := by
  rw [removeDeadline]
  have hlast : (set.vectorForRange rangeIdx).getLast? ≠ some deadline := fun h => hmem (mem_of_getLast? h)
  simp only [hlast, ↓reduceIte]
  split
  . rfl
  next found rest hrest =>
    have hfound : found ≠ deadline := by
      rintro rfl
      apply hmem
      apply (dropWhile_sublist (· < found)).subset
      rw [hrest]
      exact mem_cons_self
    rw [if_pos hfound]

theorem removeDeadline_valid (h : set.Valid)
    : (set.removeDeadline rangeIdx deadline).Valid := by
  by_cases hmem : deadline ∈ set.vectorForRange rangeIdx
  . obtain ⟨before, after, hvec, hbefore, hremove⟩ := exists_removeDeadline h.sorted hmem
    have hsorted := h.sorted rangeIdx
    have hsub : (before ++ after).Sublist (set.vectorForRange rangeIdx) := by
      rw [hvec]
      exact (List.Sublist.refl _).append (sublist_cons_self _ _)
    rw [hremove]
    split
    next hearliest =>
      apply recomputeEarliest_valid
      intro r
      rw [vectorForRange_setVector]
      split
      . exact hsorted.sublist hsub
      . exact h.sorted r
    next hearliest =>
      apply setVector_valid h (hsorted.sublist hsub)
      . intro hnone
        rw [h.eq_nil hnone] at hmem
        exact nomatch hmem
      . -- The first deadline of the range stays, for it is not the one that is taken out.
        intro d hd hrange
        have hfirst := h.head d hd
        rw [← hrange, hvec] at hfirst
        cases before with
        | nil =>
          obtain rfl : deadline = d := Option.some.inj hfirst
          exact absurd hd hearliest
        | cons first rest => exact hfirst
      . exact fun d hd y hy => h.least d hd rangeIdx y (hsub.subset hy)
  . rwa [removeDeadline_of_not_mem hmem]

section Pending

variable {future future' : Nat}

-- A branch needs a veneer when the code may grow up to an offset. No branch reaches beyond the address space.
def expires (future deadline : Nat) : Bool := !(future < 2 ^ 64) || deadline < future

def pendingAfter (future : Nat) (set : BranchDeadlineSet) : BranchDeadlineSet :=
  { set with vectors := set.vectors.map fun vec => vec.filter fun deadline => !expires future deadline }

def expired (future : Nat) (set : BranchDeadlineSet) : Nat := (set.vectors.map fun vec => vec.countP (expires future)).sum

theorem vectorForRange_pendingAfter
    : (pendingAfter future set).vectorForRange r
        = (set.vectorForRange r).filter fun deadline => !expires future deadline := by
  simp only [pendingAfter, vectorForRange, getD_eq_getElem?_getD, List.getElem?_map]
  cases set.vectors[r]? with
  | none => rfl
  | some vec => rfl

theorem expires_mono (h : expires future deadline) (hle : future ≤ future')
    : expires future' deadline := by
  simp only [expires, Bool.or_eq_true, Bool.not_eq_true', decide_eq_false_iff_not, decide_eq_true_eq] at h ⊢
  omega

theorem expires_of_le (h : expires future x) (hle : deadline ≤ x)
    : expires future deadline := by
  simp only [expires, Bool.or_eq_true, Bool.not_eq_true', decide_eq_false_iff_not, decide_eq_true_eq] at h ⊢
  omega

theorem size_eq
    : set.size = (set.vectors.map List.length).sum := by
  have hfold (vectors : List (List Nat)) (count : Nat)
      : vectors.foldl (fun count vec => count + vec.length) count = count + (vectors.map List.length).sum := by
    induction vectors generalizing count with
    | nil => rfl
    | cons vec vectors ih => rw [foldl_cons, ih, map_cons, sum_cons, Nat.add_assoc]
  rw [size, hfold, Nat.zero_add]

theorem sum_map_set {vectors : List (List Nat)} (f : List Nat → Nat) (hlt : r < vectors.length)
    : ((vectors.set r vec).map f).sum + f vectors[r] = (vectors.map f).sum + f vec := by
  have hsplit : vectors = vectors.take r ++ vectors[r] :: vectors.drop (r + 1) := by
    rw [← drop_eq_getElem_cons hlt, take_append_drop]
  have hsum := congrArg (fun vectors => (vectors.map f).sum) hsplit
  simp only [map_append, map_cons, sum_append, sum_cons] at hsum
  rw [set_eq_take_append_cons_drop, if_pos hlt, hsum]
  simp only [map_append, map_cons, sum_append, sum_cons]
  omega

theorem map_set_eq {vectors : List (List Nat)} (hlt : r < vectors.length) (hf : f vec = f vectors[r])
    : (vectors.set r vec).map f = vectors.map f := by
  rw [map_set, hf, ← getElem_map f (h := by simpa using hlt), set_getElem_self]

theorem removeDeadline_earliest (h : set.Valid) (hearliest : set.earliest = some deadline)
    : (set.removeDeadline set.earliestRange deadline).size + 1 = set.size ∧ ∀ future, expires future deadline
        → (pendingAfter future (set.removeDeadline set.earliestRange deadline)).vectors
            = (pendingAfter future set).vectors
          ∧ expired future (set.removeDeadline set.earliestRange deadline) + 1 = expired future set := by
  have hmem : deadline ∈ set.vectorForRange set.earliestRange := mem_of_head? (h.head deadline hearliest)
  obtain ⟨before, after, hvec, -, hremove⟩ := exists_removeDeadline h.sorted hmem
  have hlt : set.earliestRange < set.vectors.length := lt_length_of_ne_nil (ne_nil_of_mem hmem)
  have hget : set.vectors[set.earliestRange] = before ++ deadline :: after := by
    rw [← hvec, vectorForRange, getD_eq_getElem?_getD, List.getElem?_eq_getElem hlt, Option.getD_some]
  have hvectors : (set.removeDeadline set.earliestRange deadline).vectors
      = set.vectors.set set.earliestRange (before ++ after) := by
    rw [hremove, if_pos hearliest, recomputeEarliest_vectors]
    rfl
  refine ⟨?_, fun future hexpires => ⟨?_, ?_⟩⟩
  . have hsum := @sum_map_set _ (before ++ after) _ List.length hlt
    rw [hget, length_append, length_append, length_cons] at hsum
    rw [size_eq, hvectors, size_eq]
    omega
  . rw [pendingAfter, pendingAfter, hvectors]
    apply map_set_eq hlt
    rw [hget, filter_append, filter_append, filter_cons_of_neg (by simpa using hexpires)]
  . have hsum := @sum_map_set _ (before ++ after) _ (fun vec => vec.countP (expires future)) hlt
    simp only [hget, countP_append, countP_cons_of_pos hexpires] at hsum
    rw [expired, hvectors, expired]
    omega

end Pending

end SpiderMonkey.BranchDeadlineSet
