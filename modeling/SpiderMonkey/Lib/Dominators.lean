import Mathlib.Algebra.BigOperators.Group.Finset.Sigma

/-!
This module contains dominators: what they are in a graph with a root, and why the iteration over a tree of parent
pointers finds them when the nodes are numbered so that every node but the root has a predecessor with a greater
number. A pass visits the nodes by decreasing number and makes the parent of each the nearest common ancestor of
its predecessors.
-/

namespace Dominators

open Function Finset

section Graph

variable {α : Type} (E : α → α → Prop) (root : α)

inductive Avoids (x : α) : α → Prop where
  | root : root ≠ x → Avoids x root
  | step {u v : α} : Avoids x u → E u v → v ≠ x → Avoids x v

def Dom (x v : α) : Prop := ¬Avoids E root x v

end Graph

section Graph

variable {α : Type} {E : α → α → Prop} {root x u v : α}

theorem Dom.of_root (h : Dom E root x root) : x = root := by
  by_contra hne
  exact h (.root (fun heq => hne heq.symm))

theorem Dom.pred (h : Dom E root x v) (hne : x ≠ v) (huv : E u v) : Dom E root x u :=
  fun havoids => h (.step havoids huv hne.symm)

end Graph

inductive Anc (d : Nat → Nat) : Nat → Nat → Prop where
  | refl (i : Nat) : Anc d i i
  | up {i x : Nat} : Anc d (d i) x → Anc d i x

structure Rising (root : Nat) (d : Nat → Nat) : Prop where
  fixed : d root = root
  lt : ∀ i < root, i < d i
  le : ∀ i < root, d i ≤ root

section Anc

variable {root : Nat} {d d' : Nat → Nat} {i x y v p : Nat}

theorem Anc.trans (h : Anc d i x) (h' : Anc d x y) : Anc d i y := by
  induction h with
  | refl => exact h'
  | up _ ih => exact .up (ih h')

theorem Anc.parent (i : Nat) : Anc d i (d i) := .up (.refl _)

theorem Anc.of_ne (h : Anc d i x) (hne : x ≠ i) : Anc d (d i) x := by
  cases h with
  | refl => exact absurd rfl hne
  | up h => exact h

theorem Anc.of_root (hroot : d root = root) (h : Anc d root x) : x = root := by
  generalize hi : root = i at h
  induction h with
  | refl => rfl
  | up _ ih =>
    subst hi
    exact (ih hroot.symm).trans hroot

structure RisingFrom (root k : Nat) (d : Nat → Nat) : Prop where
  fixed : d root = root
  lt : ∀ i, k ≤ i → i < root → i < d i
  le : ∀ i, k ≤ i → i < root → d i ≤ root

theorem Rising.from (hd : Rising root d) (k : Nat) : RisingFrom root k d :=
  ⟨hd.fixed, fun i _ => hd.lt i, fun i _ => hd.le i⟩

theorem Anc.congr_from (hd : RisingFrom root v d) (heq : ∀ j, v ≤ j → d' j = d j) (hp : v ≤ i) (hi : i ≤ root)
    (h : Anc d i x) : Anc d' i x := by
  induction h with
  | refl => exact .refl _
  | @up i x _ ih =>
    apply Anc.up
    rw [heq i hp]
    rcases Nat.eq_or_lt_of_le hi with rfl | hlt
    . rw [hd.fixed] at ih ⊢
      exact ih hp (Nat.le_refl _)
    . have := hd.lt i hp hlt
      exact ih (by omega) (hd.le i hp hlt)

theorem RisingFrom.anc_le (hd : RisingFrom root v d) (hp : v ≤ i) (hi : i ≤ root) (h : Anc d i x)
    : i ≤ x ∧ x ≤ root := by
  induction h with
  | refl => exact ⟨Nat.le_refl _, hi⟩
  | @up i x _ ih =>
    rcases Nat.eq_or_lt_of_le hi with rfl | hlt
    . rw [hd.fixed] at ih
      exact ih hp (Nat.le_refl _)
    have := hd.lt i hp hlt
    have := ih (by omega) (hd.le i hp hlt)
    omega

theorem Rising.anc_le (hd : Rising root d) (h : Anc d i x) (hi : i ≤ root) : i ≤ x ∧ x ≤ root :=
  (hd.from 0).anc_le (Nat.zero_le i) hi h

theorem Anc.total (h : Anc d i x) (h' : Anc d i y) : Anc d x y ∨ Anc d y x := by
  induction h with
  | refl => exact .inl h'
  | @up i x hup ih =>
    by_cases hy : y = i
    . subst hy
      exact .inr (.up hup)
    . exact ih (h'.of_ne hy)

theorem Anc.eq_of_parent (hd : Rising root d) (hx : x < root) (hy : y < root) (hparent : d x = d y) (h : Anc d i x)
    (h' : Anc d i y) : x = y := by
  by_contra hne
  have hlx := hd.lt x hx
  have hly := hd.lt y hy
  rcases h.total h' with hanc | hanc
  . have := (hd.anc_le (hanc.of_ne (Ne.symm hne)) (hd.le x hx)).1
    omega
  . have := (hd.anc_le (hanc.of_ne hne) (hd.le y hy)).1
    omega

theorem Anc.child (h : Anc d i x) : i = x ∨ ∃ c ≠ x, d c = x ∧ Anc d i c := by
  induction h with
  | refl i => exact .inl rfl
  | @up i x _ ih =>
    by_cases hix : i = x
    . exact .inl hix
    rcases ih with heq | ⟨c, hne, hc, hanc⟩
    . exact .inr ⟨i, hix, heq, .refl i⟩
    . exact .inr ⟨c, hne, hc, .up hanc⟩

section Sum

open Classical in
noncomputable def descendants (root : Nat) (d : Nat → Nat) (x : Nat) : Finset Nat :=
  (Finset.range (root + 1)).filter fun i => Anc d i x

theorem mem_descendants : i ∈ descendants root d x ↔ i ≤ root ∧ Anc d i x := by
  classical
  unfold descendants
  rw [mem_filter, mem_range, Nat.lt_succ_iff]

theorem sum_descendants {M : Type} [AddCommMonoid M] (f : Nat → M) (hd : Rising root d) (hx : x ≤ root)
    (children : Finset Nat) (hchildren : ∀ c, c ∈ children ↔ c < root ∧ d c = x)
    : ∑ i ∈ descendants root d x, f i = f x + ∑ c ∈ children, ∑ i ∈ descendants root d c, f i := by
  have hdisjoint : (children : Set Nat).PairwiseDisjoint (descendants root d) := by
    intro c hc c' hc' hne
    obtain ⟨hlt, heq⟩ := (hchildren c).mp hc
    obtain ⟨hlt', heq'⟩ := (hchildren c').mp hc'
    refine disjoint_left.mpr fun i hi hi' => hne ?_
    exact Anc.eq_of_parent hd hlt hlt' (heq.trans heq'.symm) (mem_descendants.mp hi).2 (mem_descendants.mp hi').2
  have hnot : x ∉ children.biUnion (descendants root d) := by
    intro hmem
    obtain ⟨c, hc, hanc⟩ := mem_biUnion.mp hmem
    obtain ⟨hlt, heq⟩ := (hchildren c).mp hc
    have hup := hd.lt c hlt
    have := (hd.anc_le (mem_descendants.mp hanc).2 hx).1
    omega
  have hsplit : descendants root d x = insert x (children.biUnion (descendants root d)) := by
    ext i
    rw [mem_descendants, mem_insert, mem_biUnion]
    constructor
    . rintro ⟨hi, hanc⟩
      rcases hanc.child with rfl | ⟨c, hne, hc, hanc⟩
      . exact .inl rfl
      have hlt : c < root := by
        refine Nat.lt_of_le_of_ne (hd.anc_le hanc hi).2 fun hroot => hne ?_
        rw [← hc, hroot, hd.fixed]
      exact .inr ⟨c, (hchildren c).mpr ⟨hlt, hc⟩, mem_descendants.mpr ⟨hi, hanc⟩⟩
    . rintro (rfl | ⟨c, hc, hmem⟩)
      . exact ⟨hx, .refl i⟩
      . obtain ⟨hi, hanc⟩ := mem_descendants.mp hmem
        exact ⟨hi, hanc.trans (((hchildren c).mp hc).2 ▸ Anc.parent c)⟩
  rw [hsplit, sum_insert hnot, sum_biUnion hdisjoint]

end Sum

end Anc

section Pass

variable (root : Nat) (preds : Nat → List Nat)

def hybrid (d d' : Nat → Nat) (v i : Nat) : Nat := if v < i then d' i else d i

-- The new parent of each node is the nearest common ancestor of its predecessors. What is known of those that are
-- not above the node is left open.
structure Pass (known : Nat → Nat → Nat → Prop) (d : Nat → Nat) : Prop where
  rising : Rising root d
  meet : ∀ v < root, ∀ x, Anc d (d v) x ↔
    (∀ p ∈ preds v, v < p → Anc d p x) ∧ ∀ p ∈ preds v, p ≤ v → known v p x

def unknown : Nat → Nat → Nat → Prop := fun _ _ _ => True

def earlier (d d' : Nat → Nat) : Nat → Nat → Nat → Prop := fun v p x => Anc (hybrid d d' v) p x

-- A tree of predecessors with greater numbers.
structure SpanningTree (t : Nat → Nat) : Prop where
  fixed : t root = root
  lt : ∀ v < root, v < t v
  le : ∀ v < root, t v ≤ root
  mem : ∀ v < root, t v ∈ preds v

variable {root preds} {t d d' d'' : Nat → Nat} {known known' : Nat → Nat → Nat → Prop} {v p x i e : Nat}

theorem SpanningTree.rising (ht : SpanningTree root preds t) : Rising root t := ⟨ht.fixed, ht.lt, ht.le⟩

theorem Pass.nested (h : Pass root preds known d) (ht : SpanningTree root preds t) (hv : v < root)
    : Anc d (t v) (d v) :=
  ((h.meet v hv (d v)).mp (.refl _)).1 (t v) (ht.mem v hv) (ht.lt v hv)

theorem Pass.anc_of_tree (h : Pass root preds known d) (ht : SpanningTree root preds t) (hp : p ≤ root)
    (hx : Anc d p x) (he : Anc t p e) (hle : e ≤ x) : Anc d e x := by
  induction he with
  | refl => exact hx
  | @up p e htail ih =>
    rcases Nat.eq_or_lt_of_le hp with rfl | hlt
    . rw [ht.fixed] at ih
      exact ih (Nat.le_refl _) hx hle
    have hle' := (ht.rising.anc_le htail (ht.le p hlt)).1
    have hup := ht.lt p hlt
    exact ih (ht.le p hlt) ((h.nested ht hlt).trans (hx.of_ne (by omega))) hle

theorem Pass.tree_of_anc (h : Pass root preds known d) (ht : SpanningTree root preds t) (hv : v ≤ root)
    (hx : Anc d v x) : Anc t v x := by
  induction hn : root - v using Nat.strongRecOn generalizing v with
  | ind n ih =>
    rcases Nat.eq_or_lt_of_le hv with rfl | hlt
    . rw [hx.of_root h.rising.fixed]
      exact .refl _
    by_cases hxv : x = v
    . rw [hxv]
      exact .refl _
    have hup := ht.lt v hlt
    have hle := ht.le v hlt
    exact .up (ih (root - t v) (by omega) hle ((h.nested ht hlt).trans (hx.of_ne hxv)) rfl)

theorem anc_of_hybrid (hd : Rising root d) (hd' : Rising root d') (heq : ∀ i < root, v < i → Anc d i (d' i))
    (hp : p ≤ root) (h : Anc (hybrid d d' v) p x) : Anc d p x := by
  induction h with
  | refl => exact .refl _
  | @up i x _ ih =>
    rcases Nat.eq_or_lt_of_le hp with rfl | hlt
    . have hroot : hybrid d d' v i = i := by
        unfold hybrid
        rw [hd.fixed, hd'.fixed, ite_self]
      rw [hroot] at ih
      exact ih (Nat.le_refl _)
    . unfold hybrid at ih
      split at ih
      next hvi => exact (heq i hlt hvi).trans (ih (hd'.le i hlt))
      next => exact .up (ih (hd.le i hlt))

theorem hybrid_of_anc (hd' : Rising root d') (hv : v < i) (hi : i ≤ root) (h : Anc d' i x)
    : Anc (hybrid d d' v) i x :=
  Anc.congr_from (hd'.from (v + 1)) (fun _ hj => if_pos hj) hv hi h

theorem hybrid_climb (hold : Pass root preds known d) (hd' : Rising root d') (ht : SpanningTree root preds t)
    (hv : v < x) (habove : ∀ i, Anc t p i → i ≤ x → v < i → Anc d' i x)
    (hbelow : ∀ i, Anc t p i → i ≤ x → i ≤ v → Anc d i x) (hp : p ≤ root) (hpi : Anc t p i) (hi : i ≤ x)
    : Anc (hybrid d d' v) i x := by
  induction hn : root - i using Nat.strongRecOn generalizing i with
  | ind n ih =>
    have hle := (ht.rising.anc_le hpi hp).2
    by_cases hvi : v < i
    . exact hybrid_of_anc hd' hvi hle (habove i hpi hi hvi)
    have hanc := hbelow i hpi hi (by omega)
    have hxr := (hold.rising.anc_le hanc hle).2
    have hlt : i < root := by omega
    have hup := hold.rising.lt i hlt
    have htail := hanc.of_ne (by omega : x ≠ i)
    have hlex := (hold.rising.anc_le htail (hold.rising.le i hlt)).1
    have htree := hold.tree_of_anc ht hle (.parent i)
    have := ih (root - d i) (by omega) (hpi.trans htree) hlex rfl
    apply Anc.up
    unfold hybrid at this ⊢
    rw [if_neg hvi]
    exact this

theorem Pass.mono (h : Pass root preds known d) (h' : Pass root preds (earlier d d') d')
    (ht : SpanningTree root preds t) (hpreds : ∀ v < root, ∀ p ∈ preds v, p ≤ root)
    (hknown : ∀ v < root, ∀ p ∈ preds v, p ≤ v → ∀ x, v < x → Anc d p x → known v p x)
    (hv : v ≤ root) (hx : Anc d' v x) : Anc d v x := by
  induction hn : root - v using Nat.strongRecOn generalizing v x with
  | ind n ih =>
    rcases Nat.eq_or_lt_of_le hv with rfl | hlt
    . rw [hx.of_root h'.rising.fixed]
      exact .refl _
    by_cases hxv : x = v
    . rw [hxv]
      exact .refl _
    have htail := hx.of_ne hxv
    have hup := h'.rising.lt v hlt
    have hvx := (h'.rising.anc_le htail (h'.rising.le v hlt)).1
    obtain ⟨habove, hbelow⟩ := (h'.meet v hlt x).mp htail
    apply Anc.up
    rw [h.meet v hlt x]
    constructor
    . intro p hp hvp
      have hpr := hpreds v hlt p hp
      exact ih (root - p) (by omega) hpr (habove p hp hvp) rfl
    intro p hp hpv
    apply hknown v hlt p hp hpv x (by omega)
    refine anc_of_hybrid h.rising h'.rising (fun i hi hvi => ?_) (hpreds v hlt p hp) (hbelow p hp hpv)
    exact ih (root - i) (by omega) (by omega) (.parent i) rfl

theorem Pass.known_of_mono (h : Pass root preds known d) (h' : Pass root preds known' d')
    (ht : SpanningTree root preds t) (hmono : ∀ v ≤ root, ∀ x, Anc d' v x → Anc d v x)
    (hp : p ≤ root) (hpv : p ≤ v) (hvx : v < x) (hx : Anc d' p x) : earlier d d' v p x := by
  refine hybrid_climb h h'.rising ht hvx ?_ ?_ hp (.refl p) (by omega)
  . intro i hi hix _
    exact h'.anc_of_tree ht hp hx hi hix
  . intro i hi hix _
    exact h.anc_of_tree ht hp (hmono p hp x hx) hi hix

theorem parent_le_of_mono (hd : Rising root d) (hd' : Rising root d')
    (hmono : ∀ v ≤ root, ∀ x, Anc d' v x → Anc d v x) (hv : v < root) : d v ≤ d' v := by
  have := hmono v (by omega) (d' v) (.parent v)
  have hlt := hd'.lt v hv
  exact (hd.anc_le (this.of_ne (by omega)) (hd.le v hv)).1

section Passing

structure Passing (root : Nat) (preds : Nat → List Nat) (known : (Nat → Nat) → Nat → Nat → Nat → Prop) (d : Nat → Nat)
    (k : Nat) (cur : Nat → Nat) : Prop where
  below : ∀ i < k, cur i = d i
  rising : RisingFrom root k cur
  meet : ∀ v, k ≤ v → v < root → ∀ x, Anc cur (cur v) x ↔
    (∀ p ∈ preds v, v < p → Anc cur p x) ∧ ∀ p ∈ preds v, p ≤ v → known cur v p x

variable {cur : Nat → Nat} {known : (Nat → Nat) → Nat → Nat → Nat → Prop} {n : Nat}

theorem Passing.start (known : (Nat → Nat) → Nat → Nat → Nat → Prop) (hfixed : d root = root)
    : Passing root preds known d root d where
  below := fun _ _ => rfl
  rising := ⟨hfixed, fun i hi hlt => absurd hlt (by omega), fun i hi hlt => absurd hlt (by omega)⟩
  meet := fun v hv hlt => absurd hlt (by omega)

theorem Passing.finish (h : Passing root preds known d 0 cur) : Pass root preds (known cur) cur where
  rising := ⟨h.rising.fixed, fun i => h.rising.lt i (Nat.zero_le i), fun i => h.rising.le i (Nat.zero_le i)⟩
  meet := fun v => h.meet v (Nat.zero_le v)

theorem Passing.next (h : Passing root preds known d (v + 1) cur) (hv : v < root)
    (hpreds : ∀ v < root, ∀ p ∈ preds v, p ≤ root) (hlt : v < n) (hle : n ≤ root)
    (hcongr : ∀ f g : Nat → Nat, ∀ v p x, (∀ i, v < i → f i = g i) → (known f v p x ↔ known g v p x))
    (hmeet : ∀ x, Anc cur n x ↔
      (∀ p ∈ preds v, v < p → Anc cur p x) ∧ ∀ p ∈ preds v, p ≤ v → known (Function.update cur v n) v p x)
    : Passing root preds known d v (Function.update cur v n) := by
  have heq : ∀ j, v + 1 ≤ j → Function.update cur v n j = cur j := fun j hj => update_of_ne (by omega) _ _
  have hrising : RisingFrom root (v + 1) (Function.update cur v n) := by
    refine ⟨?_, ?_, ?_⟩
    . rw [heq root hv, h.rising.fixed]
    . intro i hi
      rw [heq i hi]
      exact h.rising.lt i hi
    . intro i hi
      rw [heq i hi]
      exact h.rising.le i hi
  have hanc : ∀ p, v < p → p ≤ root → ∀ x, Anc (Function.update cur v n) p x ↔ Anc cur p x := by
    intro p hp hpr x
    constructor
    . exact Anc.congr_from hrising (fun j hj => (heq j hj).symm) hp hpr
    . exact Anc.congr_from h.rising heq hp hpr
  refine ⟨?_, ⟨hrising.fixed, ?_, ?_⟩, ?_⟩
  . intro i hi
    rw [update_of_ne (by omega)]
    exact h.below i (by omega)
  . intro i hi hir
    rcases Nat.eq_or_lt_of_le hi with rfl | hi
    . rw [update_self]
      exact hlt
    . exact hrising.lt i hi hir
  . intro i hi hir
    rcases Nat.eq_or_lt_of_le hi with rfl | hi
    . rw [update_self]
      exact hle
    . exact hrising.le i hi hir
  . intro w hw hwr x
    have habove : (∀ p ∈ preds w, w < p → Anc (Function.update cur v n) p x) ↔ ∀ p ∈ preds w, w < p → Anc cur p x :=
      forall_congr' fun p => forall_congr' fun hp => forall_congr' fun hwp =>
        hanc p (by omega) (hpreds w hwr p hp) x
    rw [habove]
    rcases Nat.eq_or_lt_of_le hw with rfl | hw
    . rw [update_self, hanc n hlt hle]
      exact hmeet x
    rw [heq w hw, hanc (cur w) (by have := h.rising.lt w hw hwr; omega) (h.rising.le w hw hwr), h.meet w hw hwr x]
    refine and_congr_right fun _ => forall_congr' fun p => forall_congr' fun _ => forall_congr' fun _ => ?_
    exact hcongr _ _ w p x fun i hi => (heq i (by omega)).symm

theorem Passing.hybrid_eq (h : Passing root preds known d (v + 1) cur) (n : Nat)
    : hybrid d (Function.update cur v n) v = cur := by
  funext i
  unfold hybrid
  split
  next hi => exact update_of_ne (by omega) _ _
  next hi => exact (h.below i (by omega)).symm

theorem earlier_congr (d f g : Nat → Nat) (v p x : Nat) (h : ∀ i, v < i → f i = g i)
    : earlier d f v p x ↔ earlier d g v p x := by
  have : hybrid d f v = hybrid d g v := by
    funext i
    unfold hybrid
    split
    next hi => exact h i hi
    next => rfl
  unfold earlier
  rw [this]

end Passing

section Dom

def edge (preds : Nat → List Nat) (u v : Nat) : Prop := u ∈ preds v

theorem dom_of_tree (ht : SpanningTree root preds t) (hp : p ≤ root) (h : Dom (edge preds) root x p)
    (he : Anc t p e) (hle : e ≤ x) : Dom (edge preds) root x e := by
  induction he with
  | refl => exact h
  | @up p e htail ih =>
    rcases Nat.eq_or_lt_of_le hp with rfl | hlt
    . rw [ht.fixed] at ih
      exact ih (Nat.le_refl _) h hle
    have hup := ht.lt p hlt
    have hle' := (ht.rising.anc_le htail (ht.le p hlt)).1
    exact ih (ht.le p hlt) (h.pred (by omega) (ht.mem p hlt)) hle

theorem tree_of_dom (ht : SpanningTree root preds t) (hv : v ≤ root) (h : Dom (edge preds) root x v) : Anc t v x := by
  induction hn : root - v using Nat.strongRecOn generalizing v with
  | ind n ih =>
    by_cases hxv : x = v
    . rw [hxv]
      exact .refl _
    rcases Nat.eq_or_lt_of_le hv with rfl | hlt
    . exact absurd h.of_root hxv
    have hup := ht.lt v hlt
    have hle := ht.le v hlt
    exact .up (ih (root - t v) (by omega) hle (h.pred hxv (ht.mem v hlt)) rfl)

theorem Pass.anc_of_dom (h : Pass root preds known d) (ht : SpanningTree root preds t)
    (hpreds : ∀ v < root, ∀ p ∈ preds v, p ≤ root)
    (hknown : ∀ v < root, (∀ i ≤ root, v < i → ∀ y, Dom (edge preds) root y i → Anc d i y) →
      ∀ p ∈ preds v, p ≤ v → ∀ x, v < x → Dom (edge preds) root x p → known v p x)
    (hv : v ≤ root) (hx : Dom (edge preds) root x v) : Anc d v x := by
  induction hn : root - v using Nat.strongRecOn generalizing v x with
  | ind n ih =>
    by_cases hxv : x = v
    . rw [hxv]
      exact .refl _
    rcases Nat.eq_or_lt_of_le hv with rfl | hlt
    . exact absurd hx.of_root hxv
    have hup := ht.lt v hlt
    have htree := (tree_of_dom ht hv hx).of_ne hxv
    have hvx := (ht.rising.anc_le htree (ht.le v hlt)).1
    apply Anc.up
    rw [h.meet v hlt x]
    constructor
    . intro p hp hvp
      have hpr := hpreds v hlt p hp
      exact ih (root - p) (by omega) hpr (hx.pred hxv hp) rfl
    intro p hp hpv
    refine hknown v hlt (fun i hi hvi y hy => ?_) p hp hpv x (by omega) (hx.pred hxv hp)
    exact ih (root - i) (by omega) hi hy rfl

theorem Pass.known_of_dom (h : Pass root preds known d) (hd' : Rising root d') (ht : SpanningTree root preds t)
    (hdom : ∀ i ≤ root, ∀ y, Dom (edge preds) root y i → Anc d i y)
    (habove : ∀ i ≤ root, v < i → ∀ y, Dom (edge preds) root y i → Anc d' i y)
    (hp : p ≤ root) (hpv : p ≤ v) (hvx : v < x) (hx : Dom (edge preds) root x p) : earlier d d' v p x := by
  refine hybrid_climb h hd' ht hvx ?_ ?_ hp (.refl p) (by omega)
  . intro i hi hix hvi
    exact habove i (ht.rising.anc_le hi hp).2 hvi x (dom_of_tree ht hp hx hi hix)
  . intro i hi hix _
    exact hdom i (ht.rising.anc_le hi hp).2 x (dom_of_tree ht hp hx hi hix)

theorem Pass.dom_of_anc (h : Pass root preds (earlier d d) d) (hv : v ≤ root)
    (hpreds : ∀ v < root, ∀ p ∈ preds v, p ≤ root) (hx : Anc d v x) : Dom (edge preds) root x v := by
  have hmixed : ∀ v, hybrid d d v = d := fun v => funext fun i => ite_self _
  intro havoids
  induction havoids with
  | root hne => exact hne (hx.of_root h.rising.fixed).symm
  | @step u v havoids huv hne ih =>
    rcases Nat.eq_or_lt_of_le hv with rfl | hlt
    . exact hne (hx.of_root h.rising.fixed).symm
    apply ih (hpreds v hlt u huv)
    have hparent : Anc d u (d v) := by
      obtain ⟨habove, hbelow⟩ := (h.meet v hlt (d v)).mp (.refl _)
      by_cases hvu : v < u
      . exact habove u huv hvu
      have := hbelow u huv (by omega)
      unfold earlier at this
      rw [hmixed] at this
      exact this
    exact hparent.trans (hx.of_ne hne.symm)

end Dom

end Pass

end Dominators
