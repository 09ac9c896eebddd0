import SpiderMonkey.Builtin.Lemmas.ArrayElements

/-!
This module contains the loops that delete elements from the greatest index down, and where they stop.
-/

namespace SpiderMonkey.Elements

open List
open NativeObject

variable {α Object : Type}

def deleteAll (env : Environment) : List Nat → ArrayObject α Object → Option (Deletion × ArrayObject α Object)
  | [], arr => some (.finished, arr)
  | i :: l, arr => do
    let (deleted, arr) ← arr.DeleteElement env i
    match deleted with
    | .exception => return (.exception, arr)
    | .failCantDelete => return (.stopped (i + 1), arr)
    | .succeed => deleteAll env l arr

theorem deleteDown_eq (env : Environment) (newLen gap : Nat) (arr : ArrayObject α Object)
    : ArrayObject.deleteDown env newLen gap arr = deleteAll env (List.range' newLen gap).reverse arr := by
  induction gap generalizing arr with
  | zero => rfl
  | succ gap ih =>
    rw [List.range'_1_concat, reverse_append, reverse_singleton, singleton_append]
    unfold ArrayObject.deleteDown deleteAll
    refine congrArg (Option.bind _) (funext fun ⟨deleted, arr⟩ => ?_)
    cases deleted with
    | exception => rfl
    | failCantDelete => rfl
    | succeed => exact ih arr

variable {l : List Nat}

theorem deleteSorted_eq (env : Environment) (hl : l.Pairwise (· > ·)) (index : Nat)
    (hindex : ∀ i ∈ l, i < index) (arr : ArrayObject α Object)
    : ArrayObject.deleteSorted env l index arr = deleteAll env l arr := by
  induction l generalizing index arr with
  | nil => rfl
  | cons i l ih =>
    rw [pairwise_cons] at hl
    have ih := ih hl.2 i hl.1
    unfold ArrayObject.deleteSorted deleteAll
    rw [MOZ_ASSERT_of (hindex i mem_cons_self), some_bind]
    refine congrArg (Option.bind _) (funext fun ⟨deleted, arr⟩ => ?_)
    cases deleted with
    | exception => rfl
    | failCantDelete => rfl
    | succeed => exact ih arr

variable {own : Nat → Option (OwnProperty α Object)} {p : OwnProperty α Object}

theorem without_eq_some {i : Nat}
    (hp : without l own i = some p) : own i = some p := by
  unfold without at hp
  split at hp
  next => cases hp
  next => exact hp

section

variable {obj : NativeObject α} {before : List (HeapSlot α)} {h : ObjectElements} {env : Environment}

theorem Removable.of_without {i : Nat} (hi : i ∉ l)
    (hr : Removable env h (without l own) i) : Removable env h own i := by
  intro p hp
  apply hr p
  unfold without
  rw [if_neg hi]
  exact hp

variable (env) in
theorem deleteAll_place (hcow : h.isCopyOnWrite = false) (lengthReadonly : Bool) (hl : l.Nodup)
    {body : List (HeapSlot α)} {properties : List (Nat × Property Object)}
    (hf : Filled obj before h body xs) (ha : Apart xs properties)
    : ∃ result body' xs' properties', deleteAll env l ⟨obj.place before h body, properties, lengthReadonly⟩
          = some (result, ⟨obj.place before h body', properties', lengthReadonly⟩)
      ∧ Filled obj before h body' xs' ∧ Apart xs' properties'
      ∧ match result with
        | .finished => (∀ i ∈ l, Removable env h (ownProperty xs properties) i)
          ∧ ownProperty xs' properties' = without l (ownProperty xs properties)
        | .stopped n => ∃ l₁ j l₂, l = l₁ ++ j :: l₂ ∧ n = j + 1
          ∧ (∀ i ∈ l₁, Removable env h (ownProperty xs properties) i)
          ∧ ownProperty xs' properties' = without l₁ (ownProperty xs properties)
          ∧ ∃ p, ownProperty xs properties j = some p ∧ permanent h p = true
        | .exception => ∃ l₁ j l₂, l = l₁ ++ j :: l₂ ∧ (∀ i ∈ l₁, Removable env h (ownProperty xs properties) i)
          ∧ ∃ p, ownProperty xs properties j = some p ∧ permanent h p = false ∧ env.deletes j p = false := by
  induction l generalizing body xs properties with
  | nil =>
    refine ⟨.finished, body, xs, properties, rfl, hf, ha, ?_, (without_nil _).symm⟩
    intro i hi
    cases hi
  | cons i l ih =>
    rw [nodup_cons] at hl
    obtain ⟨deleted, body₁, xs₁, properties₁, hrun, hf₁, ha₁, hspec⟩ :=
      DeleteElement_place env hf ha hcow lengthReadonly i
    unfold deleteAll
    rw [hrun, some_bind]
    dsimp only
    cases deleted with
    | exception =>
      obtain ⟨p, hp⟩ := hspec
      exact ⟨.exception, body₁, xs₁, properties₁, rfl, hf₁, ha₁, [], i, l, rfl, forall_mem_nil _, p, hp⟩
    | failCantDelete =>
      obtain ⟨hown, p, hp⟩ := hspec
      exact ⟨.stopped (i + 1), body₁, xs₁, properties₁, rfl, hf₁, ha₁, [], i, l, rfl, rfl,
        forall_mem_nil _, hown.trans (without_nil _).symm, p, hp⟩
    | succeed =>
      obtain ⟨hremovable, hown⟩ := hspec
      obtain ⟨result, body', xs', properties', hrun', hf', ha', hspec'⟩ := ih hl.2 hf₁ ha₁
      rw [hown] at hspec'
      have hcons (l₁ : List Nat) (hsub : l₁ ⊆ l)
          (hrest : ∀ k ∈ l₁, Removable env h (without [i] (ownProperty xs properties)) k)
          : ∀ k ∈ i :: l₁, Removable env h (ownProperty xs properties) k := by
        intro k hk
        rcases mem_cons.mp hk with rfl | hk
        . exact hremovable
        apply (hrest k hk).of_without
        rintro hki
        rw [mem_singleton] at hki
        exact hl.1 (hki ▸ hsub hk)
      refine ⟨result, body', xs', properties', hrun', hf', ha', ?_⟩
      cases result with
      | finished =>
        obtain ⟨hrest, hown'⟩ := hspec'
        exact ⟨hcons l (List.Subset.refl _) hrest, hown'.trans (without_cons i l _)⟩
      | stopped n =>
        obtain ⟨l₁, j, l₂, hsplit, hn, hrest, hown', p, hp, hperm⟩ := hspec'
        have hsub : l₁ ⊆ l := hsplit ▸ subset_append_left _ _
        exact ⟨i :: l₁, j, l₂, congrArg _ hsplit, hn, hcons l₁ hsub hrest, hown'.trans (without_cons i l₁ _), p,
          without_eq_some hp, hperm⟩
      | exception =>
        obtain ⟨l₁, j, l₂, hsplit, hrest, p, hp, hfails⟩ := hspec'
        have hsub : l₁ ⊆ l := hsplit ▸ subset_append_left _ _
        exact ⟨i :: l₁, j, l₂, congrArg _ hsplit, hcons l₁ hsub hrest, p, without_eq_some hp, hfails⟩

end

-- The length that the array gets: one more than the last index, from the new length on, that cannot be deleted, and the
-- new length when there is none.
structure TruncatesTo (h : ObjectElements) (own : Nat → Option (OwnProperty α Object)) (newLen n : Nat) : Prop where
  le : newLen ≤ n
  stops : newLen < n → ∃ p, own (n - 1) = some p ∧ permanent h p = true
  removable : ∀ i p, n ≤ i → own i = some p → permanent h p = false

theorem exists_truncatesTo (h : ObjectElements) (own : Nat → Option (OwnProperty α Object)) (newLen gap : Nat)
    (hlast : ∀ i p, newLen + gap ≤ i → own i = some p → permanent h p = false) : ∃ n, TruncatesTo h own newLen n := by
  induction gap with
  | zero => exact ⟨newLen, Nat.le_refl _, fun hlt => absurd hlt (Nat.lt_irrefl _), hlast⟩
  | succ gap ih =>
    by_cases hperm : ∃ p, own (newLen + gap) = some p ∧ permanent h p = true
    . exact ⟨newLen + (gap + 1), Nat.le_add_right _ _, fun _ => hperm, hlast⟩
    apply ih
    intro i p hi hp
    rcases Nat.eq_or_lt_of_le hi with rfl | hlt
    . exact Bool.eq_false_of_not_eq_true fun htrue => hperm ⟨p, hp, htrue⟩
    . exact hlast i p hlt hp

theorem TruncatesTo.unique (hm : TruncatesTo h own newLen m) (hn : TruncatesTo h own newLen n) : m = n := by
  have hle {a b : Nat} (ha : TruncatesTo h own newLen a) (hb : TruncatesTo h own newLen b) : a ≤ b := by
    by_contra hlt
    have hbounds := hb.le
    obtain ⟨p, hp, hperm⟩ := ha.stops (by omega)
    exact absurd ((hb.removable (a - 1) p (by omega) hp).symm.trans hperm) Bool.false_ne_true
  exact Nat.le_antisymm (hle hm hn) (hle hn hm)

def Environment.DeletesFrom (env : Environment) (own : Nat → Option (OwnProperty α Object)) (n : Nat) : Prop :=
  ∀ i p, n ≤ i → own i = some p → env.deletes i p = true

def below (n : Nat) (own : Nat → Option (OwnProperty α Object)) (i : Nat) : Option (OwnProperty α Object) :=
  if i < n then own i else none

section

variable {h : ObjectElements} {env : Environment} {own own' : Nat → Option (OwnProperty α Object)} {l l₁ l₂ : List Nat}
  {newLen j : Nat} (hall : ∀ i p, newLen ≤ i → own i = some p → i ∈ l) (hl : l.Pairwise (· > ·))
  (hle : ∀ i ∈ l, newLen ≤ i)
include hall

include hle in
theorem finished_truncates (hremovable : ∀ i ∈ l, Removable env h own i) (hown : own' = without l own)
    : TruncatesTo h own newLen newLen ∧ env.DeletesFrom own newLen ∧ own' = below newLen own := by
  refine ⟨⟨Nat.le_refl _, fun hlt => absurd hlt (Nat.lt_irrefl _), ?_⟩, ?_, ?_⟩
  . intro i p hi hp
    exact (hremovable i (hall i p hi hp) p hp).1
  . intro i p hi hp
    exact (hremovable i (hall i p hi hp) p hp).2
  rw [hown]
  funext i
  unfold without below
  by_cases hi : i ∈ l
  . rw [if_pos hi, if_neg (Nat.not_lt.mpr (hle i hi))]
  rw [if_neg hi]
  split
  next => rfl
  next hlt =>
    rcases hp : own i with _ | p
    . rfl
    . exact absurd (hall i p (Nat.not_lt.mp hlt) hp) hi

include hl

theorem mem_of_gt (hsplit : l = l₁ ++ j :: l₂) (hj : newLen ≤ j) {i : Nat} (hi : j < i)
    (hp : own i = some p) : i ∈ l₁ := by
  have hmem := hall i p (by omega) hp
  rw [hsplit] at hl hmem
  rw [pairwise_append, pairwise_cons] at hl
  rcases mem_append.mp hmem with hmem | hmem
  . exact hmem
  rcases mem_cons.mp hmem with rfl | hmem
  . omega
  . have hlt := hl.2.1.1 i hmem
    omega

include hle

theorem stopped_truncates (hsplit : l = l₁ ++ j :: l₂) (hremovable : ∀ i ∈ l₁, Removable env h own i)
    (hown : own' = without l₁ own) (hp : own j = some p) (hperm : permanent h p = true)
    : newLen < j + 1 ∧ TruncatesTo h own newLen (j + 1) ∧ env.DeletesFrom own (j + 1) ∧ own' = below (j + 1) own := by
  have hj : newLen ≤ j := hle j (hsplit ▸ mem_append_right _ mem_cons_self)
  have hmem {i : Nat} {p : OwnProperty α Object} (hi : j + 1 ≤ i) (hp : own i = some p) : i ∈ l₁ :=
    mem_of_gt hall hl hsplit hj hi hp
  have hgt : ∀ i ∈ l₁, j < i := by
    rw [hsplit, pairwise_append] at hl
    exact fun i hi => hl.2.2 i hi j mem_cons_self
  refine ⟨Nat.lt_succ_of_le hj, ⟨Nat.le_succ_of_le hj, fun _ => ⟨p, hp, hperm⟩, ?_⟩, ?_, ?_⟩
  . intro i p hi hp
    exact (hremovable i (hmem hi hp) p hp).1
  . intro i p hi hp
    exact (hremovable i (hmem hi hp) p hp).2
  rw [hown]
  funext i
  unfold without below
  by_cases hi : i ∈ l₁
  . have hlt := hgt i hi
    rw [if_pos hi, if_neg (by omega)]
  rw [if_neg hi]
  split
  next => rfl
  next hlt =>
    rcases hp : own i with _ | p
    . rfl
    . exact absurd (hmem (Nat.not_lt.mp hlt) hp) hi

theorem not_deletesFrom (hsplit : l = l₁ ++ j :: l₂) (hremovable : ∀ i ∈ l₁, Removable env h own i)
    (hp : own j = some p) (hperm : permanent h p = false) (hfails : env.deletes j p = false)
    (ht : TruncatesTo h own newLen n) : ¬env.DeletesFrom own n := by
  have hj : newLen ≤ j := hle j (hsplit ▸ mem_append_right _ mem_cons_self)
  intro hdeletes
  by_cases hn : n ≤ j
  . exact absurd (hfails.symm.trans (hdeletes j p hn hp)) Bool.false_ne_true
  obtain ⟨p', hp', hperm'⟩ := ht.stops (by omega)
  rcases Nat.eq_or_lt_of_le (show j ≤ n - 1 by omega) with heq | hlt
  . rw [← heq, hp] at hp'
    cases hp'
    exact absurd (hperm.symm.trans hperm') Bool.false_ne_true
  . have hmem := mem_of_gt hall hl hsplit hj hlt hp'
    exact absurd ((hremovable _ hmem p' hp').1.symm.trans hperm') Bool.false_ne_true

end

def Environment.SortsKeys (env : Environment) (own : Nat → Option (OwnProperty α Object)) (newLen : Nat) : Prop :=
  env.GetPropertyKeys = true ∧ env.resize = true
    ∧ ∀ i p, own i = some p → env.CheckForInterrupt i = true ∧ (newLen ≤ i → env.append i = true)

def Environment.Completes (env : Environment) (own : Nat → Option (OwnProperty α Object)) (newLen oldLen n : Nat) : Prop :=
  env.DeletesFrom own n ∧ (RemoveElementsFastLimit ≤ oldLen - newLen → env.SortsKeys own newLen)

def Ends (env : Environment) (h : ObjectElements) (own own' : Nat → Option (OwnProperty α Object)) (newLen oldLen : Nat)
    : Deletion → Prop
  | .exception => ∀ n, TruncatesTo h own newLen n → ¬env.Completes own newLen oldLen n
  | .stopped n => newLen < n ∧ TruncatesTo h own newLen n ∧ env.Completes own newLen oldLen n ∧ own' = below n own
  | .finished => TruncatesTo h own newLen newLen ∧ env.Completes own newLen oldLen newLen ∧ own' = below newLen own

def RunEnds (env : Environment) (obj : NativeObject α) (before : List (HeapSlot α)) (h : ObjectElements)
    (xs : List (Value α)) (properties : List (Nat × Property Object)) (lengthReadonly : Bool) (newLen oldLen : Nat)
    (run : Option (Deletion × ArrayObject α Object)) : Prop :=
  ∃ result body' xs' properties', run = some (result, ⟨obj.place before h body', properties', lengthReadonly⟩)
    ∧ Filled obj before h body' xs' ∧ Ends env h (ownProperty xs properties) (ownProperty xs' properties') newLen oldLen result

section

variable {obj : NativeObject α} {before body : List (HeapSlot α)} {h : ObjectElements} {env : Environment}
  {xs : List (Value α)} {properties : List (Nat × Property Object)} (hf : Filled obj before h body xs)
include hf

theorem deleteAll_ends (ha : Apart xs properties) (hcow : h.isCopyOnWrite = false) (lengthReadonly : Bool)
    (hl : l.Pairwise (· > ·)) (hle : ∀ i ∈ l, newLen ≤ i)
    (hall : ∀ i p, newLen ≤ i → ownProperty xs properties i = some p → i ∈ l)
    (hsorts : RemoveElementsFastLimit ≤ oldLen - newLen → env.SortsKeys (ownProperty xs properties) newLen)
    : RunEnds env obj before h xs properties lengthReadonly newLen oldLen
        (deleteAll env l ⟨obj.place before h body, properties, lengthReadonly⟩) := by
  have hnodup : l.Nodup := hl.imp Nat.ne_of_gt
  obtain ⟨result, body', xs', properties', hrun, hf', _, hspec⟩ :=
    deleteAll_place env hcow lengthReadonly hnodup hf ha
  refine ⟨result, body', xs', properties', hrun, hf', ?_⟩
  cases result with
  | exception =>
    obtain ⟨l₁, j, l₂, hsplit, hremovable, p, hp, hperm, hfails⟩ := hspec
    intro n ht hcompletes
    exact not_deletesFrom hall hl hle hsplit hremovable hp hperm hfails ht hcompletes.1
  | stopped n =>
    obtain ⟨l₁, j, l₂, hsplit, rfl, hremovable, hown, p, hp, hperm⟩ := hspec
    obtain ⟨hlt, ht, hdeletes, hbelow⟩ := stopped_truncates hall hl hle hsplit hremovable hown hp hperm
    exact ⟨hlt, ht, ⟨hdeletes, hsorts⟩, hbelow⟩
  | finished =>
    obtain ⟨hremovable, hown⟩ := hspec
    obtain ⟨ht, hdeletes, hbelow⟩ := finished_truncates hall hle hremovable hown
    exact ⟨ht, ⟨hdeletes, hsorts⟩, hbelow⟩

theorem denseIndexes_place (count : Nat)
    : (obj.place before h body).denseIndexes count
      = some ((List.range count).filter fun i => (denseAt xs i).isSome) := by
  induction count with
  | zero => rfl
  | succ count ih =>
    unfold NativeObject.denseIndexes
    rw [ih, some_bind, containsDenseElement_place hf, some_bind, range_succ, filter_append, filter_singleton]
    cases (denseAt xs count).isSome with
    | true => rfl
    | false => exact congrArg some (append_nil _).symm

theorem GetPropertyKeys_place (ha : Apart xs properties) (lengthReadonly : Bool)
    : ∃ keys, (ArrayObject.mk (obj.place before h body) properties lengthReadonly).GetPropertyKeys = some keys
      ∧ keys.Nodup ∧ ∀ i, i ∈ keys ↔ ∃ p, ownProperty xs properties i = some p := by
  refine ⟨((List.range h.initializedLength).filter fun i => (denseAt xs i).isSome) ++ properties.map Prod.fst, ?_, ?_, ?_⟩
  . unfold ArrayObject.GetPropertyKeys
    rw [getElementsHeader_place, some_bind, denseIndexes_place hf]
    rfl
  . rw [nodup_append]
    refine ⟨nodup_range.filter _, ha.nodup, ?_⟩
    rintro i hi _ hj rfl
    have hsome := (mem_filter.mp hi).2
    rw [ha.denseAt i hj] at hsome
    cases hsome
  intro i
  rw [mem_append, mem_filter, mem_range]
  unfold ownProperty
  rcases hdense : denseAt xs i with _ | v
  . constructor
    . rintro (⟨_, hsome⟩ | hmem)
      . cases hsome
      rcases hlookup : properties.lookup i with _ | p
      . rw [lookup_eq_none_iff] at hlookup
        obtain ⟨p, hp, rfl⟩ := mem_map.mp hmem
        exact absurd rfl (bne_iff_ne.mp (hlookup p hp))
      . exact ⟨.shape p, rfl⟩
    . rintro ⟨p, hp⟩
      apply Or.inr
      by_contra hnot
      rw [lookup_eq_none_of_not_mem hnot] at hp
      cases hp
  . have hi : i < xs.length := by
      by_contra hi
      rw [denseAt_of_le (Nat.not_lt.mp hi)] at hdense
      cases hdense
    rw [hf.length]
    exact ⟨fun _ => ⟨_, rfl⟩, fun _ => .inl ⟨hi, rfl⟩⟩

end

theorem mergeSort_descending (hl : l.Nodup)
    : (l.mergeSort (fun a b => decide (b ≤ a))).Pairwise (· > ·) := by
  have hge : (l.mergeSort (fun a b => decide (b ≤ a))).Pairwise (fun a b => decide (b ≤ a) = true) := by
    apply pairwise_mergeSort
    . intro a b c hab hbc
      exact decide_eq_true (Nat.le_trans (of_decide_eq_true hbc) (of_decide_eq_true hab))
    intro a b
    rw [Bool.or_eq_true, decide_eq_true_eq, decide_eq_true_eq]
    exact Nat.le_total b a
  have hne : (l.mergeSort (fun a b => decide (b ≤ a))).Nodup := (mergeSort_perm _ _).nodup_iff.mpr hl
  refine (hge.and hne).imp ?_
  rintro a b ⟨hle, hne⟩
  exact Nat.lt_of_le_of_ne (of_decide_eq_true hle) (Ne.symm hne)

theorem siftIndexes_eq (env : Environment) (newLen oldLen : Nat) (props : List Nat)
    : ArrayObject.siftIndexes env newLen oldLen props
      = if ∀ i ∈ props, env.CheckForInterrupt i = true ∧ (newLen ≤ i ∧ i < oldLen → env.append i = true) then
          some (props.filter fun i => newLen ≤ i ∧ i < oldLen)
        else none := by
  induction props with
  | nil => rfl
  | cons i props ih =>
    unfold ArrayObject.siftIndexes
    rw [ih]
    simp only [forall_mem_cons]
    cases hinterrupt : env.CheckForInterrupt i with
    | false => simp [guard]
    | true =>
      by_cases hrange : newLen ≤ i ∧ i < oldLen
      . cases happend : env.append i with
        | false => simp [guard, hrange]
        | true =>
          simp only [guard, hrange, ↓reduceIte, and_self, forall_const, true_and, decide_true, filter_cons]
          split <;> rfl
      . simp [guard, hrange]

section

variable {obj : NativeObject α} {before body : List (HeapSlot α)} {h : ObjectElements} {env : Environment}
  {xs : List (Value α)} {properties : List (Nat × Property Object)} (hf : Filled obj before h body xs)
  (ha : Apart xs properties) (hcow : h.isCopyOnWrite = false) (lengthReadonly : Bool) {newLen oldLen : Nat}
  (hlt : ∀ i p, ownProperty xs properties i = some p → i < oldLen)
include hf ha hcow hlt

variable (env) in
theorem deleteDown_ends (hgap : oldLen - newLen < RemoveElementsFastLimit)
    : RunEnds env obj before h xs properties lengthReadonly newLen oldLen
        (ArrayObject.deleteDown env newLen (oldLen - newLen) ⟨obj.place before h body, properties, lengthReadonly⟩) := by
  rw [deleteDown_eq]
  apply deleteAll_ends hf ha hcow
  . rw [pairwise_reverse]
    exact pairwise_lt_range'
  . intro i hi
    rw [mem_reverse, mem_range'_1] at hi
    exact hi.1
  . intro i p hi hp
    have := hlt i p hp
    rw [mem_reverse, mem_range'_1]
    omega
  . intro hlarge
    omega

variable (env) in
theorem deleteIndexes_ends (hgap : RemoveElementsFastLimit ≤ oldLen - newLen) (huint : oldLen < 2 ^ 32)
    : RunEnds env obj before h xs properties lengthReadonly newLen oldLen
        ((ArrayObject.mk (obj.place before h body) properties lengthReadonly).deleteIndexes env newLen oldLen) := by
  obtain ⟨keys, hkeys, hnodup, hmem⟩ := GetPropertyKeys_place hf ha lengthReadonly
  have hfails (hnot : ¬env.SortsKeys (ownProperty xs properties) newLen)
      : RunEnds env obj before h xs properties lengthReadonly newLen oldLen
          (some (.exception, ⟨obj.place before h body, properties, lengthReadonly⟩)) :=
    ⟨.exception, body, xs, properties, rfl, hf, fun _ _ hcompletes => hnot (hcompletes.2 hgap)⟩
  unfold ArrayObject.deleteIndexes
  rw [hkeys, some_bind]
  split
  next hfail => exact hfails fun hsorts => hfail hsorts.1
  next hcollects =>
    rw [siftIndexes_eq]
    by_cases hsift : ∀ i ∈ keys, env.CheckForInterrupt i = true ∧ (newLen ≤ i ∧ i < oldLen → env.append i = true)
    . rw [if_pos hsift]
      dsimp only
      split
      next hfail => exact hfails fun hsorts => hfail hsorts.2.1
      next hresizes =>
        have hsorts : env.SortsKeys (ownProperty xs properties) newLen := by
          refine ⟨not_not.mp hcollects, not_not.mp hresizes, fun i p hp => ?_⟩
          obtain ⟨hinterrupt, happend⟩ := hsift i ((hmem i).mpr ⟨p, hp⟩)
          exact ⟨hinterrupt, fun hi => happend ⟨hi, hlt i p hp⟩⟩
        have hsorted := mergeSort_descending (hnodup.filter fun i => decide (newLen ≤ i ∧ i < oldLen))
        have hsortedMem (i : Nat) : i ∈ (keys.filter fun i => decide (newLen ≤ i ∧ i < oldLen)).mergeSort
            (fun a b => decide (b ≤ a)) ↔ i ∈ keys ∧ newLen ≤ i ∧ i < oldLen := by
          rw [mem_mergeSort, mem_filter, decide_eq_true_eq]
        rw [deleteSorted_eq env hsorted _ (fun i hi => by have := ((hsortedMem i).mp hi).2; omega)]
        apply deleteAll_ends hf ha hcow lengthReadonly hsorted
        . intro i hi
          exact ((hsortedMem i).mp hi).2.1
        . intro i p hi hp
          exact (hsortedMem i).mpr ⟨(hmem i).mpr ⟨p, hp⟩, hi, hlt i p hp⟩
        . exact fun _ => hsorts
    . rw [if_neg hsift]
      refine hfails fun hsorts => hsift fun i hi => ?_
      obtain ⟨p, hp⟩ := (hmem i).mp hi
      obtain ⟨hinterrupt, happend⟩ := hsorts.2.2 i p hp
      exact ⟨hinterrupt, fun hi => happend hi.1⟩

end

end SpiderMonkey.Elements
