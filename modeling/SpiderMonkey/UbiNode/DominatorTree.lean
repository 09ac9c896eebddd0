import Mathlib.Data.Set.Card
import Mathlib.Data.UInt
import SpiderMonkey.UbiNode.Lemmas.DominatorTree

/-!
This module contains the theorem that the dominator tree is exact: the immediate dominators, the sets of nodes that
each node immediately dominates, and the retained sizes, which are summed up before they are needed, as dominators
have greater indices.
-/

open List

namespace SpiderMonkey.UbiNode
namespace DominatorTree

open Dominators
open Buckets

variable {Node Name : Type} [DecidableEq Node] {edges : Node → List (Edge Node Name)} {root : Node}
  {tree : DominatorTree Node} {i j : Nat} {v : Node}

def Represents.node (_ : Represents edges root tree) (i : Nat) : Node := (tree.postOrder[i]?).getD root

section Represents

variable (h : Represents edges root tree)
include h

theorem Represents.length_pos : 0 < tree.postOrder.length := by
  have := (List.getElem?_eq_some_iff.mp h.root_index).1
  omega

theorem Represents.getElem?_eq (hi : i < tree.postOrder.length) : tree.postOrder[i]? = some (h.node i) := by
  unfold Represents.node
  rw [List.getElem?_eq_getElem hi]
  rfl

theorem Represents.index_eq_iff : tree.nodeToPostOrderIndex v = some i ↔ tree.postOrder[i]? = some v := by
  rw [h.index]
  exact mapNodesToTheirIndices_eq_iff h.nodup

theorem Represents.index_node (hi : i < tree.postOrder.length) : tree.nodeToPostOrderIndex (h.node i) = some i :=
  h.index_eq_iff.mpr (h.getElem?_eq hi)

theorem Represents.node_injective (hi : i < tree.postOrder.length) (hj : j < tree.postOrder.length)
    (heq : h.node i = h.node j) : i = j := by
  refine index_unique h.nodup (h.getElem?_eq hi) ?_
  rw [heq]
  exact h.getElem?_eq hj

theorem Represents.node_eq_root_iff (hi : i < tree.postOrder.length)
    : h.node i = root ↔ i = tree.postOrder.length - 1 := by
  constructor
  . intro heq
    refine index_unique h.nodup (h.getElem?_eq hi) ?_
    rw [heq]
    exact h.root_index
  . rintro rfl
    exact Option.some.inj ((h.getElem?_eq hi).symm.trans h.root_index)

theorem Represents.doms_lt : ∀ dom ∈ tree.doms, dom < tree.doms.length :=
  DominatorTree.doms_lt h.length_pos h.length h.rising

theorem Represents.parents_lt (hi : i < tree.postOrder.length) : parents tree.doms i < tree.postOrder.length := by
  have hlt : i < tree.doms.length := by
    rw [h.length]
    exact hi
  have := h.doms_lt _ (mem_of_getElem? (getElem?_eq_parents hlt))
  rwa [h.length] at this

theorem Represents.mem_bucket_iff : j ∈ bucket tree.doms i ↔ j < tree.postOrder.length ∧ parents tree.doms j = i := by
  rw [mem_bucket, ← h.length]
  constructor
  . intro hj
    have hlt := (List.getElem?_eq_some_iff.mp hj).1
    exact ⟨hlt, Option.some.inj ((getElem?_eq_parents hlt).symm.trans hj)⟩
  . rintro ⟨hlt, rfl⟩
    exact getElem?_eq_parents hlt

theorem Represents.dominatedSet_eq (hi : i < tree.postOrder.length)
    : tree.dominatedSets.dominatedSet tree.postOrder i = some ((bucket tree.doms i).map h.node) := by
  rw [DominatedSets.dominatedSet_eq h.sets h.doms_lt tree.postOrder (by rw [h.length]; exact hi)]
  apply Lists.mapM_eq_some_map
  intro j hj
  exact h.getElem?_eq (h.mem_bucket_iff.mp hj).1

noncomputable def Represents.retained (size : Node → UInt64) (i : Nat) : Nat :=
  ∑ j ∈ descendants (tree.postOrder.length - 1) (parents tree.doms) i, (size (h.node j)).toNat

theorem Represents.addRetained_eq (size : Node → UInt64) {sizes : List UInt64} {range : List Nat}
    (hrange : ∀ j ∈ range, j < tree.postOrder.length ∧ (j ≠ tree.postOrder.length - 1 →
      sizes[j]? = some (UInt64.ofNat (h.retained size j)))) (n : Nat)
    : tree.addRetained sizes (UInt64.ofNat n) (range.map h.node)
      = some (UInt64.ofNat (n + ((range.filter (· ≠ tree.postOrder.length - 1)).map (h.retained size)).sum)) := by
  have hroot : tree.root = some root := h.root_index
  induction range generalizing n with
  | nil => rfl
  | cons j range ih =>
    obtain ⟨hj, hsize⟩ := hrange j mem_cons_self
    have hrest := fun k hk => hrange k (mem_cons_of_mem j hk)
    rw [map_cons, addRetained, hroot, some_bind, filter_cons]
    by_cases hjr : j = tree.postOrder.length - 1
    . rw [if_pos ((h.node_eq_root_iff hj).mpr hjr), if_neg (by simpa using hjr), ih hrest]
    . rw [if_neg (mt (h.node_eq_root_iff hj).mp hjr), if_pos (by simpa using hjr), h.index_node hj,
        some_bind, hsize hjr, some_bind, ← UInt64.ofNat_add, ih hrest, map_cons, sum_cons, Nat.add_assoc]

theorem Represents.retained_eq (size : Node → UInt64) (hi : i < tree.postOrder.length)
    : h.retained size i = (size (h.node i)).toNat
      + (((bucket tree.doms i).filter (· ≠ tree.postOrder.length - 1)).map (h.retained size)).sum := by
  have hnodup := (nodup_bucket tree.doms i).filter (· ≠ tree.postOrder.length - 1)
  unfold Represents.retained
  rw [sum_descendants _ h.rising (by omega)
    ((bucket tree.doms i).filter (· ≠ tree.postOrder.length - 1)).toFinset, sum_toFinset _ hnodup]
  intro c
  rw [mem_toFinset, mem_filter, h.mem_bucket_iff, decide_eq_true_eq]
  constructor
  . rintro ⟨⟨hlt, heq⟩, hne⟩
    exact ⟨by omega, heq⟩
  . rintro ⟨hlt, heq⟩
    exact ⟨⟨by omega, heq⟩, by omega⟩

theorem Represents.computeRetainedSizes_eq (size : Node → UInt64)
    : ∃ sizes, tree.computeRetainedSizes size = some sizes
        ∧ ∀ i < tree.postOrder.length, sizes[i]? = some (UInt64.ofNat (h.retained size i)) := by
  unfold computeRetainedSizes
  have hstep (done : List (Node × Nat)) (entry : Node × Nat) (sizes : List UInt64)
      (hpre : done ++ [entry] <+: tree.postOrder.zipIdx)
      (hinv : sizes.length = tree.postOrder.length
        ∧ ∀ i < done.length, sizes[i]? = some (UInt64.ofNat (h.retained size i)))
      : ∃ sizes', (do
          let range ← tree.dominatedSets.dominatedSet tree.postOrder entry.2
          let size ← tree.addRetained sizes (size entry.1) range
          some (sizes.set entry.2 size)) = some sizes'
        ∧ sizes'.length = tree.postOrder.length
        ∧ ∀ i < (done ++ [entry]).length, sizes'[i]? = some (UInt64.ofNat (h.retained size i)) := by
    obtain ⟨hlength, hsizes⟩ := hinv
    have hentry : tree.postOrder.zipIdx[done.length]? = some entry := by
      obtain ⟨rest, hrest⟩ := hpre
      rw [← hrest, append_assoc, List.getElem?_append_right (Nat.le_refl _), Nat.sub_self]
      rfl
    rw [List.getElem?_zipIdx, Option.map_eq_some_iff] at hentry
    obtain ⟨v, hv, rfl⟩ := hentry
    have hi : done.length < tree.postOrder.length := (List.getElem?_eq_some_iff.mp hv).1
    obtain rfl : h.node done.length = v := Option.some.inj ((h.getElem?_eq hi).symm.trans hv)
    dsimp only
    rw [Nat.zero_add, h.dominatedSet_eq hi, some_bind,
      ← UInt64.ofNat_toNat (x := size (h.node done.length)), h.addRetained_eq size, ← h.retained_eq size hi]
    . refine ⟨_, rfl, ?_, fun i hlt => ?_⟩
      . rw [length_set]
        exact hlength
      rw [length_append, length_singleton] at hlt
      rw [List.getElem?_set, hlength]
      split
      next heq =>
        subst heq
        rfl
      next hne => exact hsizes i (by omega)
    . -- What a node dominates has a smaller index.
      intro j hj
      obtain ⟨hlt, heq⟩ := h.mem_bucket_iff.mp hj
      refine ⟨hlt, fun hne => hsizes j ?_⟩
      rw [← heq]
      exact h.rising.lt j (by omega)
  obtain ⟨sizes, heq, _, hsizes⟩ := Run.exists_foldlM _ hstep ⟨length_replicate, nofun⟩
  rw [length_zipIdx] at hsizes
  exact ⟨sizes, heq, hsizes⟩

end Represents

variable {Node Name : Type} [DecidableEq Node] {edges : Node → List (Edge Node Name)} {root : Node}
  {tree : DominatorTree Node} {i j : Nat} {u v d : Node}

theorem Represents.isImmediateDominator_iff (h : Represents edges root tree) (hi : tree.postOrder[i]? = some v)
    (hj : tree.postOrder[j]? = some d) : IsImmediateDominator edges root d v ↔ parents tree.doms i = j := by
  have hlt := (List.getElem?_eq_some_iff.mp hi).1
  have hlt' := (List.getElem?_eq_some_iff.mp hj).1
  have hroot (k : Nat) (w : Node) (hk : tree.postOrder[k]? = some w) : w = root ↔ k = tree.postOrder.length - 1 := by
    constructor
    . rintro rfl
      exact index_unique h.nodup hk h.root_index
    . rintro rfl
      exact Option.some.inj (hk.symm.trans h.root_index)
  have hlast : i ≤ tree.postOrder.length - 1 := by omega
  by_cases hv : v = root
  . obtain rfl := (hroot i v hi).mp hv
    rw [h.rising.fixed]
    constructor
    . exact fun hd => ((hroot j d hj).mp (hd.1 hv)).symm
    . exact fun heq => ⟨fun _ => (hroot j d hj).mpr heq.symm, fun hne => absurd hv hne⟩
  have hir : i < tree.postOrder.length - 1 := Nat.lt_of_le_of_ne hlast (mt (hroot i v hi).mpr hv)
  have hup := h.rising.lt i hir
  have hp := h.getElem?_eq (h.parents_lt hlt)
  have hstrict {k : Nat} {w : Node} (hk : tree.postOrder[k]? = some w) (hki : k ≠ i) : w ≠ v := by
    rintro rfl
    exact hki (index_unique h.nodup hk hi)
  have hindex {k : Nat} {w : Node} (hk : tree.postOrder[k]? = some w) (hwv : w ≠ v) : k ≠ i := by
    rintro rfl
    exact hwv (Option.some.inj (hk.symm.trans hi))
  constructor
  . rintro ⟨_, hd⟩
    obtain ⟨hne, hdom, hall⟩ := hd hv
    have hanc := ((h.anc_iff i j d v hi hj).mpr hdom).of_ne (hindex hj hne)
    have hle := (h.rising.anc_le hanc (h.rising.le i hir)).1
    have hparent := (h.anc_iff i _ _ v hi hp).mp (.parent i)
    have hanc' := (h.anc_iff j _ _ d hj hp).mpr (hall _ (hstrict hp (by omega)) hparent)
    have hle' := (h.rising.anc_le hanc' (by omega)).1
    omega
  . rintro rfl
    refine ⟨fun heq => absurd heq hv, fun _ => ⟨hstrict hj (by omega), (h.anc_iff i _ d v hi hj).mp (.parent i), ?_⟩⟩
    intro u hne hdom
    have hu := (h.mem_iff u).mpr (hdom.reachable ((h.mem_iff v).mp (mem_of_getElem? hi)))
    obtain ⟨k, hk⟩ := mem_iff_getElem?.mp hu
    exact (h.anc_iff _ k u d hj hk).mp (((h.anc_iff i k u v hi hk).mpr hdom).of_ne (hindex hk hne))

noncomputable def totalSize [Fintype Node] (size : Node → UInt64) (set : Set Node) : Nat :=
  ∑ w ∈ set.toFinite.toFinset, (size w).toNat

theorem Represents.retained_eq_totalSize [Fintype Node] (h : Represents edges root tree) (size : Node → UInt64)
    (hi : tree.postOrder[i]? = some v)
    : h.retained size i = totalSize size {w | Reachable edges root w ∧ Dominates edges root v w} := by
  have hlt := (List.getElem?_eq_some_iff.mp hi).1
  have hmem (k : Nat) : k ∈ descendants (tree.postOrder.length - 1) (parents tree.doms) i
      ↔ k < tree.postOrder.length ∧ Dominates edges root v (h.node k) := by
    rw [mem_descendants]
    constructor
    . rintro ⟨hk, hanc⟩
      exact ⟨by omega, (h.anc_iff k i v _ (h.getElem?_eq (by omega)) hi).mp hanc⟩
    . rintro ⟨hk, hdom⟩
      exact ⟨by omega, (h.anc_iff k i v _ (h.getElem?_eq hk) hi).mpr hdom⟩
  unfold Represents.retained totalSize
  apply Finset.sum_nbij h.node
  . intro k hk
    obtain ⟨hk, hdom⟩ := (hmem k).mp hk
    rw [Set.Finite.mem_toFinset]
    exact ⟨(h.mem_iff _).mp (mem_of_getElem? (h.getElem?_eq hk)), hdom⟩
  . intro k hk k' hk' heq
    exact h.node_injective ((hmem k).mp hk).1 ((hmem k').mp hk').1 heq
  . intro w hw
    obtain ⟨hreach, hdom⟩ := (Set.Finite.mem_toFinset _).mp hw
    obtain ⟨k, hk⟩ := mem_iff_getElem?.mp ((h.mem_iff w).mpr hreach)
    have hk' := (List.getElem?_eq_some_iff.mp hk).1
    obtain rfl : h.node k = w := Option.some.inj ((h.getElem?_eq hk').symm.trans hk)
    exact ⟨k, (hmem k).mpr ⟨hk', hdom⟩, rfl⟩
  . exact fun k _ => rfl

def afterRetainedSizes (size : Node → UInt64) (queried : List Node) (tree : DominatorTree Node)
    : Option (DominatorTree Node) :=
  queried.foldlM (fun tree v => (tree.getRetainedSize size v).map Prod.snd) tree

theorem Represents.getRetainedSize_eq (h : Represents edges root tree) (size : Node → UInt64) {sizes : List UInt64}
    (hcompute : tree.computeRetainedSizes size = some sizes)
    (hsizes : ∀ i < tree.postOrder.length, sizes[i]? = some (UInt64.ofNat (h.retained size i)))
    {tree' : DominatorTree Node} (hcache : tree' = tree ∨ tree' = { tree with retainedSizes := some sizes })
    (hi : tree.postOrder[i]? = some v)
    : tree'.getRetainedSize size v
      = some (UInt64.ofNat (h.retained size i), { tree with retainedSizes := some sizes }) := by
  have hindex := h.index_eq_iff.mpr hi
  have hsize := hsizes i (List.getElem?_eq_some_iff.mp hi).1
  unfold getRetainedSize
  rcases hcache with rfl | rfl
  . rw [hindex]
    dsimp only
    rw [h.retainedSizes]
    dsimp only
    rw [hcompute, some_bind, hsize]
    rfl
  . dsimp only
    rw [hindex]
    dsimp only
    rw [some_bind, hsize]
    rfl

theorem Represents.getRetainedSize_of_unreachable (h : Represents edges root tree) (size : Node → UInt64)
    {sizes : List UInt64} {tree' : DominatorTree Node}
    (hcache : tree' = tree ∨ tree' = { tree with retainedSizes := some sizes }) (hv : v ∉ tree.postOrder)
    : tree'.getRetainedSize size v = some (0, tree') := by
  have hindex : tree'.nodeToPostOrderIndex v = none := by
    rcases hcache with rfl | rfl
    all_goals exact h.index ▸ mapNodesToTheirIndices_eq_none h.nodup hv
  unfold getRetainedSize
  rw [hindex]

theorem Represents.afterRetainedSizes_eq (h : Represents edges root tree) (size : Node → UInt64) {sizes : List UInt64}
    (hcompute : tree.computeRetainedSizes size = some sizes)
    (hsizes : ∀ i < tree.postOrder.length, sizes[i]? = some (UInt64.ofNat (h.retained size i))) (queried : List Node)
    : ∃ tree', afterRetainedSizes size queried tree = some tree'
        ∧ (tree' = tree ∨ tree' = { tree with retainedSizes := some sizes }) := by
  apply Run.exists_foldlM (fun _ tree' => tree' = tree ∨ tree' = { tree with retainedSizes := some sizes })
  . intro _ v tree' _ hcache
    by_cases hv : v ∈ tree.postOrder
    . obtain ⟨i, hi⟩ := mem_iff_getElem?.mp hv
      rw [h.getRetainedSize_eq size hcompute hsizes hcache hi]
      exact ⟨_, rfl, .inr rfl⟩
    . rw [h.getRetainedSize_of_unreachable size hcache hv]
      exact ⟨_, rfl, hcache⟩
  . exact .inl rfl

-- What the tree says of the nodes that can be reached, whichever retained sizes have been asked for before. Each node
-- has one immediate dominator only, so the ranges are a partition. The sizes wrap around.
structure IsExact [Fintype Node] (edges : Node → List (Edge Node Name)) (root : Node) (size : Node → UInt64)
    (tree : DominatorTree Node) : Prop where
  immediateDominator : ∀ v, Reachable edges root v → ∃ d, tree.getImmediateDominator v = some (some d)
    ∧ ∀ d', IsImmediateDominator edges root d' v ↔ d' = d
  dominatedSet : ∀ v, Reachable edges root v → ∃ range, tree.getDominatedSet v = some (some range) ∧ range.Nodup
    ∧ ∀ w, w ∈ range ↔ Reachable edges root w ∧ IsImmediateDominator edges root v w
  retainedSize : ∀ queried v, Reachable edges root v → ∃ tree' tree'' outSize,
    afterRetainedSizes size queried tree = some tree' ∧ tree'.getRetainedSize size v = some (outSize, tree'')
      ∧ outSize.toNat = totalSize size {w | Reachable edges root w ∧ Dominates edges root v w} % 2 ^ 64

theorem Represents.isExact [Fintype Node] (h : Represents edges root tree) (size : Node → UInt64)
    : IsExact edges root size tree := by
  have hindexed (v : Node) (hv : Reachable edges root v) : ∃ i : Nat, tree.postOrder[i]? = some v :=
    mem_iff_getElem?.mp ((h.mem_iff v).mpr hv)
  refine ⟨fun v hv => ?_, fun v hv => ?_, fun queried v hv => ?_⟩
  . obtain ⟨i, hi⟩ := hindexed v hv
    have hlt := (List.getElem?_eq_some_iff.mp hi).1
    have hp := h.getElem?_eq (h.parents_lt hlt)
    refine ⟨h.node (parents tree.doms i), ?_, fun d' => ?_⟩
    . unfold getImmediateDominator
      rw [h.index_eq_iff.mpr hi]
      dsimp only
      rw [getElem?_eq_parents (by rw [h.length]; exact hlt), some_bind, hp]
      rfl
    constructor
    . intro hd
      have hreach : Reachable edges root d' := by
        by_cases hvr : v = root
        . rw [hd.1 hvr]
        . exact (hd.2 hvr).2.1.reachable hv
      obtain ⟨j, hj⟩ := hindexed d' hreach
      rw [(h.isImmediateDominator_iff hi hj).mp hd]
      exact Option.some.inj (hj.symm.trans (h.getElem?_eq (List.getElem?_eq_some_iff.mp hj).1))
    . rintro rfl
      exact (h.isImmediateDominator_iff hi hp).mpr rfl
  . obtain ⟨i, hi⟩ := hindexed v hv
    have hlt := (List.getElem?_eq_some_iff.mp hi).1
    refine ⟨(Buckets.bucket tree.doms i).map h.node, ?_, ?_, fun w => ?_⟩
    . unfold getDominatedSet
      rw [h.index_eq_iff.mpr hi]
      dsimp only
      rw [h.dominatedSet_eq hlt]
      rfl
    . refine (Buckets.nodup_bucket tree.doms i).map_on fun j hj k hk heq => ?_
      exact h.node_injective (h.mem_bucket_iff.mp hj).1 (h.mem_bucket_iff.mp hk).1 heq
    rw [mem_map]
    constructor
    . rintro ⟨j, hj, rfl⟩
      obtain ⟨hj, hparent⟩ := h.mem_bucket_iff.mp hj
      have hget := h.getElem?_eq hj
      exact ⟨(h.mem_iff _).mp (mem_of_getElem? hget), (h.isImmediateDominator_iff hget hi).mpr hparent⟩
    rintro ⟨hw, hdom⟩
    obtain ⟨j, hj⟩ := hindexed w hw
    have hj' := (List.getElem?_eq_some_iff.mp hj).1
    refine ⟨j, h.mem_bucket_iff.mpr ⟨hj', (h.isImmediateDominator_iff hj hi).mp hdom⟩, ?_⟩
    exact Option.some.inj ((h.getElem?_eq hj').symm.trans hj)
  . obtain ⟨i, hi⟩ := hindexed v hv
    obtain ⟨sizes, hcompute, hsizes⟩ := h.computeRetainedSizes_eq size
    obtain ⟨tree', hafter, hcache⟩ := h.afterRetainedSizes_eq size hcompute hsizes queried
    refine ⟨tree', _, _, hafter, h.getRetainedSize_eq size hcompute hsizes hcache hi, ?_⟩
    rw [UInt64.toNat_ofNat', h.retained_eq_totalSize size hi]

theorem dominatorTree_exact [Fintype Node] (order : HashOrder Node) (edges : Node → List (Edge Node Name)) (root : Node)
    (size : Node → UInt64)
    : ∃ needed, ∀ fuel ≥ needed, if {v | Reachable edges root v}.ncard < UINT32_MAX then
          ∃ tree, Create order edges fuel root = some (some tree) ∧ IsExact edges root size tree
        else Create order edges fuel root = some none := by
  have hcard (nodes : List Node) (hnodup : nodes.Nodup) : (nodes.toFinset : Set Node).ncard = nodes.length := by
    rw [Set.ncard_coe_finset, toFinset_card_of_nodup hnodup]
  refine ⟨PostOrder.steps edges (PostOrder.init.addStart edges root) + Fintype.card Node * Fintype.card Node + 2,
    fun fuel hfuel => ?_⟩
  rcases Create_eq order fuel (show PostOrder.steps edges (PostOrder.init.addStart edges root) < fuel by omega)
    (by omega) with ⟨tree, hcreate, h, hsmall⟩ | ⟨hcreate, nodes, hnodup, hreach, hlength⟩
  . have heq : {v | Reachable edges root v} = (tree.postOrder.toFinset : Set Node) := by
      ext v
      rw [Finset.mem_coe, mem_toFinset]
      exact (h.mem_iff v).symm
    rw [heq, hcard _ h.nodup, if_pos hsmall]
    exact ⟨tree, hcreate, h.isExact size⟩
  have hsub : (nodes.toFinset : Set Node) ⊆ {v | Reachable edges root v} := by
    intro v hv
    rw [Finset.mem_coe, mem_toFinset] at hv
    exact hreach v hv
  have hle := Set.ncard_le_ncard hsub (Set.toFinite _)
  rw [hcard _ hnodup] at hle
  rw [if_neg (by omega)]
  exact hcreate

def falseFirst : HashOrder Bool where
  all := fun set => [false, true].filter (· ∈ set)
  mem_all := by decide

-- An edge from one of two nodes to the other, each of half of what a size can be.
def halves (v : Bool) : List (Edge Bool Unit) := if v then [⟨(), false⟩] else []

theorem retainedSize_of_halves
    : (do
        let tree ← (Create falseFirst halves 20 true).join
        let (outSize, _) ← tree.getRetainedSize (fun _ => 2 ^ 63) true
        some outSize) = some 0
      ∧ 0 < totalSize (fun _ => 2 ^ 63) {w | Reachable halves true w ∧ Dominates halves true true w} := by
  refine ⟨by decide +kernel, ?_⟩
  have hmem : true ∈ {w | Reachable halves true w ∧ Dominates halves true true w} := by
    refine ⟨.refl, fun path hpath => mem_of_getLast? hpath.last⟩
  unfold totalSize
  refine Finset.sum_pos (fun w _ => show 0 < (2 ^ 63 : UInt64).toNat by decide +kernel) ⟨true, ?_⟩
  exact (Set.Finite.mem_toFinset _).mpr hmem

end DominatorTree
end SpiderMonkey.UbiNode
