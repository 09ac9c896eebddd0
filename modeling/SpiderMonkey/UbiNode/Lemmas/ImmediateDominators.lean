import SpiderMonkey.Lib.OptionBind
import Mathlib.Algebra.Order.BigOperators.Group.Finset
import SpiderMonkey.Lib.Dominators
import SpiderMonkey.UbiNode.Impl.DominatorTree

/-!
This module contains the lemmas about the iteration that finds the immediate dominators: it never accesses an element
outside of a vector, it ends, and it leaves dominators and nothing else.
-/

namespace SpiderMonkey.UbiNode
namespace DominatorTree

open List
open Dominators

def parents (doms : List Nat) (i : Nat) : Nat := doms[i]?.getD 0

variable {doms : List Nat} {root k v i n : Nat}

theorem getElem?_eq_parents (hi : i < doms.length) : doms[i]? = some (parents doms i) := by
  unfold parents
  rw [List.getElem?_eq_getElem hi]
  rfl

theorem parents_set (hi : i < doms.length) (n : Nat)
    : parents (doms.set i n) = Function.update (parents doms) i n := by
  funext j
  unfold parents Function.update
  dsimp only
  rw [List.getElem?_set]
  by_cases hij : i = j
  . subst hij
    rw [if_pos rfl, if_pos hi, dif_pos rfl]
    rfl
  . rw [if_neg hij, dif_neg (Ne.symm hij)]

theorem newIDom_cons (h : doms[idx]? = some dom) (predecessors : List Nat)
    : newIDom doms (idx :: predecessors)
      = if dom ≠ UNDEFINED then intersectAll doms idx (idx :: predecessors) else newIDom doms predecessors := by
  unfold newIDom
  rw [firstProcessed, h, Option.bind_eq_bind, some_bind]
  split
  next => rfl
  next => rfl

section Intersect

variable (hlength : doms.length = root + 1) (hd : RisingFrom root k (parents doms))
include hlength hd

theorem intersect_eq (rounds finger1 finger2 : Nat) (h1 : k ≤ finger1 ∧ finger1 ≤ root)
    (h2 : k ≤ finger2 ∧ finger2 ≤ root) (hrounds : (root - finger1) + (root - finger2) < rounds)
    : ∃ n, intersect doms rounds finger1 finger2 = some n ∧ (k ≤ n ∧ n ≤ root)
        ∧ ∀ x, Anc (parents doms) n x ↔ Anc (parents doms) finger1 x ∧ Anc (parents doms) finger2 x := by
  have hup (a b x : Nat) (ha : k ≤ a ∧ a ≤ root) (hb : k ≤ b ∧ b ≤ root) (hlt : a < b)
      : Anc (parents doms) a x ∧ Anc (parents doms) b x
        ↔ Anc (parents doms) (parents doms a) x ∧ Anc (parents doms) b x := by
    apply and_congr_left
    intro hbx
    have := (hd.anc_le hb.1 hb.2 hbx).1
    exact ⟨fun h => h.of_ne (by omega), .up⟩
  induction rounds generalizing finger1 finger2 with
  | zero => exact absurd hrounds (Nat.not_lt_zero _)
  | succ rounds ih =>
    unfold intersect
    split
    next hne =>
      split
      next hlt =>
        have hlt' := hd.lt finger1 h1.1 (by omega)
        have hle' := hd.le finger1 h1.1 (by omega)
        rw [getElem?_eq_parents (by omega), some_bind]
        obtain ⟨n, hn, hle, hanc⟩ := ih (parents doms finger1) finger2 ⟨by omega, hle'⟩ h2 (by omega)
        refine ⟨n, hn, hle, fun x => ?_⟩
        rw [hanc x, hup finger1 finger2 x h1 h2 hlt]
      next hlt =>
        have hlt' := hd.lt finger2 h2.1 (by omega)
        have hle' := hd.le finger2 h2.1 (by omega)
        rw [getElem?_eq_parents (by omega), some_bind]
        obtain ⟨n, hn, hle, hanc⟩ := ih finger1 (parents doms finger2) h1 ⟨by omega, hle'⟩ (by omega)
        refine ⟨n, hn, hle, fun x => ?_⟩
        rw [hanc x, and_comm, ← hup finger2 finger1 x h2 h1 (by omega), and_comm]
    next heq =>
      obtain rfl := Decidable.not_not.mp heq
      exact ⟨finger1, rfl, h1, fun x => and_self_iff.symm⟩

variable (hdefined : ∀ p ≤ root, parents doms p ≠ UNDEFINED → k ≤ p)
include hdefined

theorem intersectAll_eq (range : List Nat) (hrange : ∀ p ∈ range, p ≤ root) (newIDomIdx : Nat)
    (h : k ≤ newIDomIdx ∧ newIDomIdx ≤ root)
    : ∃ n, intersectAll doms newIDomIdx range = some n ∧ (k ≤ n ∧ n ≤ root)
        ∧ ∀ x, Anc (parents doms) n x ↔ Anc (parents doms) newIDomIdx x
          ∧ ∀ p ∈ range, parents doms p ≠ UNDEFINED → Anc (parents doms) p x := by
  induction range generalizing newIDomIdx with
  | nil => exact ⟨newIDomIdx, rfl, h, fun x => ⟨fun hx => ⟨hx, nofun⟩, And.left⟩⟩
  | cons idx range ih =>
    have hidx := hrange idx mem_cons_self
    have hrest : ∀ p ∈ range, p ≤ root := fun p hp => hrange p (mem_cons_of_mem _ hp)
    unfold intersectAll
    rw [getElem?_eq_parents (by omega), some_bind]
    split
    next hdef =>
      obtain ⟨n', hn', hle', hanc'⟩ := intersect_eq hlength hd (2 * doms.length + 1) newIDomIdx idx h
        ⟨hdefined idx hidx hdef, hidx⟩ (by omega)
      obtain ⟨n, hn, hle, hanc⟩ := ih hrest n' hle'
      rw [hn']
      refine ⟨n, hn, hle, fun x => ?_⟩
      rw [hanc x, hanc' x, forall_mem_cons, and_assoc]
      exact and_congr_right fun _ => and_congr_left fun _ => ⟨fun hx _ => hx, fun hx => hx hdef⟩
    next hdef =>
      obtain ⟨n, hn, hle, hanc⟩ := ih hrest newIDomIdx h
      refine ⟨n, hn, hle, fun x => ?_⟩
      rw [hanc x, forall_mem_cons]
      exact and_congr_right fun _ => ⟨fun hx => ⟨fun hdef' => absurd hdef' hdef, hx⟩, And.right⟩

theorem newIDom_eq (predecessors : List Nat) (hrange : ∀ p ∈ predecessors, p ≤ root)
    (hsome : ∃ p ∈ predecessors, parents doms p ≠ UNDEFINED)
    : ∃ n, newIDom doms predecessors = some n ∧ (k ≤ n ∧ n ≤ root) ∧ ∀ x, Anc (parents doms) n x ↔
          ∀ p ∈ predecessors, parents doms p ≠ UNDEFINED → Anc (parents doms) p x := by
  induction predecessors with
  | nil =>
    obtain ⟨p, hp, _⟩ := hsome
    exact absurd hp not_mem_nil
  | cons idx predecessors ih =>
    have hidx := hrange idx mem_cons_self
    rw [newIDom_cons (getElem?_eq_parents (by omega))]
    split
    next hdef =>
      obtain ⟨n, hn, hle, hanc⟩ := intersectAll_eq hlength hd hdefined (idx :: predecessors) hrange idx
        ⟨hdefined idx hidx hdef, hidx⟩
      refine ⟨n, hn, hle, fun x => ?_⟩
      rw [hanc x]
      exact and_iff_right_of_imp fun hx => hx idx mem_cons_self hdef
    next hdef =>
      have hsome' : ∃ p ∈ predecessors, parents doms p ≠ UNDEFINED := by
        obtain ⟨p, hp, hdef'⟩ := hsome
        rcases mem_cons.mp hp with rfl | hp
        . exact absurd hdef' hdef
        . exact ⟨p, hp, hdef'⟩
      obtain ⟨n, hn, hle, hanc⟩ := ih (fun p hp => hrange p (mem_cons_of_mem _ hp)) hsome'
      refine ⟨n, hn, hle, fun x => ?_⟩
      rw [hanc x, forall_mem_cons]
      exact ⟨fun hx => ⟨fun hdef' => absurd hdef' hdef, hx⟩, And.right⟩

end Intersect

def predecessors (vectors : List (List Nat)) (i : Nat) : List Nat := vectors[i]?.getD []

structure Indexed (root : Nat) (vectors : List (List Nat)) (t : Nat → Nat) : Prop where
  length : vectors.length = root + 1
  le : ∀ i < root, ∀ p ∈ predecessors vectors i, p ≤ root
  tree : SpanningTree root (predecessors vectors) t
  small : root < UNDEFINED

section Pass

variable {vectors : List (List Nat)} {t d : Nat → Nat}

theorem Indexed.getElem?_eq (g : Indexed root vectors t) (hi : i ≤ root)
    : vectors[i]? = some (predecessors vectors i) := by
  have := g.length
  unfold predecessors
  rw [List.getElem?_eq_getElem (by omega)]
  rfl

theorem Indexed.newIDom_eq (g : Indexed root vectors t) (hlength : doms.length = root + 1)
    (hd : RisingFrom root k (parents doms)) (hundefined : ∀ p < k, p < root → parents doms p = UNDEFINED)
    (hv : v < root) (hk : k ≤ t v)
    : ∃ n, newIDom doms (predecessors vectors v) = some n ∧ v < n ∧ n ≤ root
        ∧ ∀ x, Anc (parents doms) n x ↔ ∀ p ∈ predecessors vectors v, k ≤ p → Anc (parents doms) p x := by
  have hup := g.tree.lt v hv
  have hsmall := g.small
  have hdefined : ∀ p ≤ root, k ≤ p → parents doms p ≠ UNDEFINED := by
    intro p hp hkp
    have hle : parents doms p ≤ root := by
      rcases Nat.eq_or_lt_of_le hp with rfl | hlt
      . exact Nat.le_of_eq hd.fixed
      . exact hd.le p hkp hlt
    omega
  have hk' : k ≤ root := by
    have := g.tree.le v hv
    omega
  have hbound : ∀ p ≤ root, parents doms p ≠ UNDEFINED → k ≤ p := by
    intro p hp hdef
    by_contra hlt
    exact hdef (hundefined p (by omega) (by omega))
  obtain ⟨n, hn, hle, hanc⟩ := DominatorTree.newIDom_eq hlength hd hbound (predecessors vectors v) (g.le v hv)
    ⟨t v, g.tree.mem v hv, hdefined (t v) (g.tree.le v hv) hk⟩
  have hmeet : ∀ x, Anc (parents doms) n x ↔ ∀ p ∈ predecessors vectors v, k ≤ p → Anc (parents doms) p x := by
    intro x
    rw [hanc x]
    refine forall_congr' fun p => forall_congr' fun hp => ?_
    have hp' := g.le v hv p hp
    exact ⟨fun h hkp => h (hdefined p hp' hkp), fun h hdef => h (hbound p hp' hdef)⟩
  have hanc' := (hmeet n).mp (.refl n) (t v) (g.tree.mem v hv) hk
  have := (hd.anc_le hk (g.tree.le v hv) hanc').1
  exact ⟨n, hn, by omega, hle.2, hmeet⟩

theorem Indexed.pass_eq (g : Indexed root vectors t) (known : (Nat → Nat) → Nat → Nat → Nat → Prop) (d : Nat → Nat)
    (hcongr : ∀ f g : Nat → Nat, ∀ v p x, (∀ i, v < i → f i = g i) → (known f v p x ↔ known g v p x))
    (hnew : ∀ v < root, ∀ doms : List Nat, doms.length = root + 1 →
      Passing root (predecessors vectors) known d (v + 1) (parents doms) →
      ∃ n, newIDom doms (predecessors vectors v) = some n ∧ v < n ∧ n ≤ root ∧ ∀ x, Anc (parents doms) n x ↔
        (∀ p ∈ predecessors vectors v, v < p → Anc (parents doms) p x)
          ∧ ∀ p ∈ predecessors vectors v, p ≤ v → known (Function.update (parents doms) v n) v p x)
    (k : Nat) (hk : k ≤ root) (doms : List Nat) (changed : Bool) (hlength : doms.length = root + 1)
    (h : Passing root (predecessors vectors) known d k (parents doms)) (hchanged : changed = true ↔ parents doms ≠ d)
    : ∃ doms' changed', pass vectors k doms changed = some (doms', changed') ∧ doms'.length = root + 1
        ∧ Passing root (predecessors vectors) known d 0 (parents doms') ∧ (changed' = true ↔ parents doms' ≠ d) := by
  induction k generalizing doms changed with
  | zero => exact ⟨doms, changed, rfl, hlength, h, hchanged⟩
  | succ v ih =>
    obtain ⟨n, hn, hlt, hle, hmeet⟩ := hnew v hk doms hlength h
    have hnext := h.next hk g.le hlt hle hcongr hmeet
    have hold := h.below v (Nat.lt_succ_self v)
    unfold pass
    rw [g.getElem?_eq (by omega), some_bind, hn, some_bind, getElem?_eq_parents (by omega), some_bind]
    split
    next hne =>
      apply ih (by omega)
      . rw [length_set]
        exact hlength
      . rw [parents_set (by omega)]
        exact hnext
      . rw [parents_set (by omega)]
        refine iff_of_true rfl fun heq => hne ?_
        rw [hold, ← heq, Function.update_self]
    next heq =>
      apply ih (by omega) _ _ hlength _ hchanged
      rw [Decidable.not_not.mp heq, Function.update_eq_self] at hnext
      exact hnext

-- What the parents are between two passes: all dominators are ancestors still.
structure Approx (root : Nat) (vectors : List (List Nat)) (known : Nat → Nat → Nat → Prop) (d : Nat → Nat) : Prop where
  pass : Dominators.Pass root (predecessors vectors) known d
  kept : ∀ v < root, ∀ p ∈ predecessors vectors v, p ≤ v → ∀ x, v < x → Anc d p x → known v p x
  complete : ∀ i ≤ root, ∀ y, Dom (edge (predecessors vectors)) root y i → Anc d i y

structure Exact (root : Nat) (vectors : List (List Nat)) (d : Nat → Nat) : Prop where
  rising : Rising root d
  anc_iff : ∀ i ≤ root, ∀ y, Anc d i y ↔ Dom (edge (predecessors vectors)) root y i

theorem parents_initializeDominators (hi : i < root)
    : parents (initializeDominators (root + 1)) i = UNDEFINED := by
  unfold parents initializeDominators
  rw [Nat.add_sub_cancel, List.getElem?_append_left (by rw [length_replicate]; exact hi),
    List.getElem?_replicate_of_lt hi]
  rfl

theorem parents_initializeDominators_root : parents (initializeDominators (root + 1)) root = root := by
  unfold parents initializeDominators
  rw [Nat.add_sub_cancel, List.getElem?_append_right (by rw [length_replicate]), length_replicate, Nat.sub_self]
  rfl

theorem length_initializeDominators : (initializeDominators (root + 1)).length = root + 1 := by
  unfold initializeDominators
  rw [length_append, length_replicate]
  rfl

theorem Indexed.newIDom_first (g : Indexed root vectors t) (hv : v < root) (hlength : doms.length = root + 1)
    (h : Passing root (predecessors vectors) (fun _ => unknown) (parents (initializeDominators (root + 1))) (v + 1)
      (parents doms))
    : ∃ n, newIDom doms (predecessors vectors v) = some n ∧ v < n ∧ n ≤ root ∧ ∀ x, Anc (parents doms) n x ↔
        (∀ p ∈ predecessors vectors v, v < p → Anc (parents doms) p x)
          ∧ ∀ p ∈ predecessors vectors v, p ≤ v → unknown v p x := by
  have hundefined : ∀ p < v + 1, p < root → parents doms p = UNDEFINED := by
    intro p hp hpr
    rw [h.below p hp]
    exact parents_initializeDominators hpr
  obtain ⟨n, hn, hlt, hle, hanc⟩ := g.newIDom_eq hlength h.rising hundefined hv (g.tree.lt v hv)
  refine ⟨n, hn, hlt, hle, fun x => ?_⟩
  rw [hanc x]
  exact (and_iff_left fun _ _ _ => trivial).symm

theorem Indexed.first_pass (g : Indexed root vectors t)
    : ∃ doms changed, pass vectors root (initializeDominators (root + 1)) false = some (doms, changed)
        ∧ doms.length = root + 1 ∧ Approx root vectors unknown (parents doms)
        ∧ (changed = true ↔ parents doms ≠ parents (initializeDominators (root + 1))) := by
  obtain ⟨doms, changed, heq, hlength, hpass, hchanged⟩ := g.pass_eq (fun _ => unknown) _
    (fun _ _ _ _ _ _ => Iff.rfl) (fun v hv doms hlength h => g.newIDom_first hv hlength h) root (Nat.le_refl _)
    (initializeDominators (root + 1)) false length_initializeDominators
    (Passing.start _ parents_initializeDominators_root) (by simp)
  refine ⟨doms, changed, heq, hlength, ?_, hchanged⟩
  refine ⟨hpass.finish, fun _ _ _ _ _ _ _ _ => trivial, fun i hi y hy => ?_⟩
  exact hpass.finish.anc_of_dom g.tree g.le (fun _ _ _ _ _ _ _ _ _ => trivial) hi hy

theorem Indexed.newIDom_later (g : Indexed root vectors t) (hd : Rising root d) (hv : v < root)
    (hlength : doms.length = root + 1)
    (h : Passing root (predecessors vectors) (fun f => earlier d f) d (v + 1) (parents doms))
    : ∃ n, newIDom doms (predecessors vectors v) = some n ∧ v < n ∧ n ≤ root ∧ ∀ x, Anc (parents doms) n x ↔
        (∀ p ∈ predecessors vectors v, v < p → Anc (parents doms) p x)
          ∧ ∀ p ∈ predecessors vectors v, p ≤ v → earlier d (Function.update (parents doms) v n) v p x := by
  have hrising : RisingFrom root 0 (parents doms) := by
    refine ⟨h.rising.fixed, fun i _ hi => ?_, fun i _ hi => ?_⟩
    . by_cases hiv : i < v + 1
      . rw [h.below i hiv]
        exact hd.lt i hi
      . exact h.rising.lt i (by omega) hi
    by_cases hiv : i < v + 1
    . rw [h.below i hiv]
      exact hd.le i hi
    . exact h.rising.le i (by omega) hi
  obtain ⟨n, hn, hlt, hle, hanc⟩ := g.newIDom_eq hlength hrising (fun p hp => absurd hp (Nat.not_lt_zero p)) hv
    (Nat.zero_le _)
  refine ⟨n, hn, hlt, hle, fun x => ?_⟩
  unfold earlier
  rw [hanc x, h.hybrid_eq n]
  constructor
  . exact fun hx => ⟨fun p hp _ => hx p hp (Nat.zero_le p), fun p hp _ => hx p hp (Nat.zero_le p)⟩
  intro hx p hp _
  by_cases hvp : v < p
  . exact hx.1 p hp hvp
  . exact hx.2 p hp (by omega)

theorem Indexed.next_pass (g : Indexed root vectors t) {known : Nat → Nat → Nat → Prop}
    (hlength : doms.length = root + 1) (h : Approx root vectors known (parents doms))
    : ∃ doms' changed, pass vectors root doms false = some (doms', changed) ∧ doms'.length = root + 1
        ∧ Approx root vectors (earlier (parents doms) (parents doms')) (parents doms')
        ∧ (∀ i < root, parents doms i ≤ parents doms' i) ∧ (changed = true ↔ parents doms' ≠ parents doms) := by
  obtain ⟨doms', changed, heq, hlength', hpassing, hchanged⟩ := g.pass_eq (fun f => earlier (parents doms) f) _
    (earlier_congr (parents doms)) (fun v hv cur hlength hcur => g.newIDom_later h.pass.rising hv hlength hcur) root
    (Nat.le_refl _) doms false hlength (Passing.start _ h.pass.rising.fixed) (by simp)
  have hpass := hpassing.finish
  have hmono : ∀ v ≤ root, ∀ x, Anc (parents doms') v x → Anc (parents doms) v x :=
    fun v hv x => h.pass.mono hpass g.tree g.le h.kept hv
  refine ⟨doms', changed, heq, hlength', ⟨hpass, ?_, ?_⟩, ?_, hchanged⟩
  . intro v hv p hp hpv x hvx hx
    exact h.pass.known_of_mono hpass g.tree hmono (g.le v hv p hp) hpv hvx hx
  . intro i hi y hy
    refine hpass.anc_of_dom g.tree g.le (fun v hv habove p hp hpv x hvx hx => ?_) hi hy
    exact h.pass.known_of_dom hpass.rising g.tree h.complete habove (g.le v hv p hp) hpv hvx hx
  . exact fun i hi => parent_le_of_mono h.pass.rising hpass.rising hmono hi

def distance (root : Nat) (d : Nat → Nat) : Nat := ∑ i ∈ Finset.range root, (root - d i)

theorem distance_lt (hd' : Rising root d') (hle : ∀ i < root, d i ≤ d' i)
    (hne : ∃ i < root, d' i ≠ d i) : distance root d' < distance root d := by
  apply Finset.sum_lt_sum
  . intro i hi
    have := hle i (Finset.mem_range.mp hi)
    omega
  obtain ⟨i, hi, hne⟩ := hne
  have := hle i hi
  have := hd'.le i hi
  exact ⟨i, Finset.mem_range.mpr hi, by omega⟩

theorem exists_parents_ne (hlength : doms.length = root + 1) (hlength' : doms'.length = root + 1)
    (hroot : parents doms root = root) (hroot' : parents doms' root = root) (hne : parents doms' ≠ parents doms)
    : ∃ i < root, parents doms' i ≠ parents doms i := by
  by_contra hall
  apply hne
  funext i
  by_contra hi
  apply hall
  refine ⟨i, ?_, hi⟩
  by_contra hge
  apply hi
  rcases Nat.eq_or_lt_of_le (Nat.le_of_not_lt hge) with rfl | hlt
  . rw [hroot, hroot']
  . unfold parents
    rw [List.getElem?_eq_none (by omega), List.getElem?_eq_none (by omega)]

theorem Approx.exact {known : Nat → Nat → Nat → Prop} (g : Indexed root vectors t) (h : Approx root vectors known d)
    (hpass : Dominators.Pass root (predecessors vectors) (earlier d d) d) : Exact root vectors d where
  rising := h.pass.rising
  anc_iff := fun i hi y => ⟨fun hy => hpass.dom_of_anc hi g.le hy, h.complete i hi y⟩

theorem Indexed.iterate_later (g : Indexed root vectors t) {known : Nat → Nat → Nat → Prop} (fuel : Nat)
    (hlength : doms.length = root + 1) (h : Approx root vectors known (parents doms))
    (hfuel : distance root (parents doms) < fuel)
    : ∃ doms', iterate vectors fuel doms = some doms' ∧ doms'.length = root + 1
        ∧ Exact root vectors (parents doms') := by
  induction fuel generalizing doms known with
  | zero => exact absurd hfuel (Nat.not_lt_zero _)
  | succ fuel ih =>
    obtain ⟨doms', changed, heq, hlength', h', hle, hchanged⟩ := g.next_pass hlength h
    unfold iterate
    rw [hlength, Nat.add_sub_cancel, heq, some_bind]
    dsimp only
    split
    next hc =>
      have hne := exists_parents_ne hlength hlength' h.pass.rising.fixed h'.pass.rising.fixed (hchanged.mp hc)
      have := distance_lt h'.pass.rising hle hne
      exact ih hlength' h' (by omega)
    next hc =>
      have hsame : parents doms' = parents doms := by
        by_contra hne
        exact hc (hchanged.mpr hne)
      refine ⟨doms', rfl, hlength', h'.exact g ?_⟩
      have hpass := h'.pass
      rw [hsame] at hpass ⊢
      exact hpass

theorem distance_le (root : Nat) (d : Nat → Nat) : distance root d ≤ root * root := by
  have := Finset.sum_le_card_nsmul (Finset.range root) (fun i => root - d i) root (fun i _ => Nat.sub_le _ _)
  rw [Finset.card_range] at this
  exact this

theorem Indexed.iterate_eq (g : Indexed root vectors t) (fuel : Nat) (hfuel : root * root + 1 < fuel)
    : ∃ doms, iterate vectors fuel (initializeDominators (root + 1)) = some doms ∧ doms.length = root + 1
        ∧ Exact root vectors (parents doms) := by
  obtain ⟨fuel, rfl⟩ : ∃ n, fuel = n + 1 := ⟨fuel - 1, by omega⟩
  obtain ⟨doms, changed, heq, hlength, h, hchanged⟩ := g.first_pass
  unfold iterate
  rw [length_initializeDominators, Nat.add_sub_cancel, heq, some_bind]
  dsimp only
  split
  next hc =>
    have := distance_le root (parents doms)
    exact g.iterate_later fuel hlength h (by omega)
  next hc =>
    have hsame : parents doms = parents (initializeDominators (root + 1)) := by
      by_contra hne
      exact hc (hchanged.mpr hne)
    have hroot : root = 0 := by
      by_contra hne
      have hle := h.pass.rising.le 0 (by omega)
      rw [hsame, parents_initializeDominators (by omega)] at hle
      have := g.small
      omega
    refine ⟨doms, rfl, hlength, h.exact g ⟨h.pass.rising, fun v hv => ?_⟩⟩
    omega

end Pass

end DominatorTree
end SpiderMonkey.UbiNode
