import SpiderMonkey.Lib.Buckets
import SpiderMonkey.Lib.Lists
import SpiderMonkey.Lib.Run
import SpiderMonkey.UbiNode.Lemmas.ImmediateDominators
import SpiderMonkey.UbiNode.Lemmas.PostOrder

/-!
This module contains what it means for a node of the heap to dominate another one, in terms of the paths from the
root, the lemmas about the buckets of what each node immediately dominates, and those that lead from the indices of
the nodes in post-order to the nodes: the traversal, the predecessors, and the dominators.
-/

open List

namespace SpiderMonkey.UbiNode

variable {Node Name : Type} (edges : Node → List (Edge Node Name)) (root : Node)

structure PathTo (v : Node) (path : List Node) : Prop where
  head : path.head? = some root
  chain : path.IsChain (Succ edges)
  last : path.getLast? = some v

def Dominates (u v : Node) : Prop := ∀ path, PathTo edges root v path → u ∈ path

def IsImmediateDominator (d v : Node) : Prop :=
  (v = root → d = root)
  ∧ (v ≠ root → d ≠ v ∧ Dominates edges root d v ∧ ∀ u, u ≠ v → Dominates edges root u v → Dominates edges root u d)

variable {edges root} {u v : Node}

theorem PathTo.concat {path : List Node} {w : Node} (h : PathTo edges root v path) (hsucc : Succ edges v w)
    : PathTo edges root w (path ++ [w]) where
  head := by
    rw [List.head?_append, h.head]
    rfl
  chain := by
    refine isChain_append.mpr ⟨h.chain, isChain_singleton w, ?_⟩
    intro x hx y hy
    rw [h.last] at hx
    cases hx
    cases hy
    exact hsucc
  last := List.getLast?_concat

theorem exists_avoiding_iff : (∃ path, PathTo edges root v path ∧ u ∉ path)
    ↔ Dominators.Avoids (Succ edges) root u v := by
  constructor
  . rintro ⟨path, hpath, hu⟩
    induction path using List.reverseRecOn generalizing v with
    | nil => exact absurd hpath.head nofun
    | append_singleton path w ih =>
      obtain rfl : w = v := Option.some.inj (List.getLast?_concat.symm.trans hpath.last)
      rw [mem_append, mem_singleton, not_or] at hu
      obtain ⟨hchain, _, hlink⟩ := isChain_append.mp hpath.chain
      cases hlast : path.getLast? with
      | none =>
        obtain rfl := List.getLast?_eq_none_iff.mp hlast
        obtain rfl : w = root := Option.some.inj hpath.head
        exact .root (Ne.symm hu.2)
      | some x =>
        have hne : path ≠ [] := by
          rintro rfl
          exact absurd hlast nofun
        have hhead := hpath.head
        rw [List.head?_append_of_ne_nil _ hne] at hhead
        exact .step (ih ⟨hhead, hchain, hlast⟩ hu.1) (hlink x hlast w rfl) (Ne.symm hu.2)
  . intro h
    induction h with
    | root hne => exact ⟨[root], ⟨rfl, isChain_singleton root, rfl⟩, fun hu => hne (mem_singleton.mp hu).symm⟩
    | @step w x _ hsucc hne ih =>
      obtain ⟨path, hpath, hu⟩ := ih
      refine ⟨path ++ [x], hpath.concat hsucc, ?_⟩
      rw [mem_append, mem_singleton, not_or]
      exact ⟨hu, Ne.symm hne⟩

theorem dominates_iff : Dominates edges root u v ↔ Dominators.Dom (Succ edges) root u v := by
  unfold Dominates Dominators.Dom
  rw [← exists_avoiding_iff]
  simp only [not_exists, not_and, not_not]

theorem reachable_of_avoids (h : Dominators.Avoids (Succ edges) root u v) : Reachable edges root v := by
  induction h with
  | root => exact .refl
  | step _ hsucc _ ih => exact ih.tail hsucc

theorem Dominates.reachable (h : Dominates edges root u v) (hv : Reachable edges root v)
    : Reachable edges root u := by
  by_contra hu
  apply dominates_iff.mp h
  have hne {w : Node} (hw : Reachable edges root w) : w ≠ u := by
    rintro rfl
    exact hu hw
  clear h
  induction hv with
  | refl => exact .root (hne .refl)
  | tail hw hsucc ih => exact .step ih hsucc (hne (hw.tail hsucc))

namespace DominatedSets

open Buckets

variable {doms : List Nat}

theorem countSizes_eq (h : ∀ dom ∈ doms, dom < doms.length)
    : countSizes doms (List.replicate doms.length 0) = some ((List.range doms.length).map doms.count) := by
  have hstep (done : List Nat) (dom : Nat) (indices : List Nat) (hpre : done ++ [dom] <+: doms)
      (heq : indices = (List.range doms.length).map done.count)
      : ∃ indices', (do let size ← indices[dom]?; some (indices.set dom (size + 1))) = some indices'
        ∧ indices' = (List.range doms.length).map (done ++ [dom]).count := by
    subst heq
    have hdom : dom < doms.length := h dom (hpre.subset (mem_append_right _ mem_cons_self))
    refine ⟨_, ?_, rfl⟩
    rw [List.getElem?_map, List.getElem?_range hdom]
    apply congrArg some
    apply ext_getElem?
    intro b
    rw [List.getElem?_set, List.getElem?_map, List.getElem?_map, length_map, length_range]
    by_cases hb : b < doms.length
    . rw [List.getElem?_range hb]
      by_cases hdb : dom = b
      . subst hdb
        rw [if_pos rfl, if_pos hdom, Option.map_some, count_append, count_singleton_self]
      . rw [if_neg hdb, Option.map_some, Option.map_some, count_append, count_singleton,
          if_neg (by simpa using hdb), Nat.add_zero]
    . rw [List.getElem?_eq_none (by rw [length_range]; omega), if_neg (by omega)]
      rfl
  have hstart : List.replicate doms.length 0 = (List.range doms.length).map ([] : List Nat).count := by
    simp only [count_nil]
    rw [map_const', length_range]
  obtain ⟨indices, heq, rfl⟩ := Run.exists_foldlM _ hstep hstart
  exact heq

theorem cumulate_eq (f : Nat → Nat) (a : Nat) (sizes : List Nat)
    (h : ∀ i size, sizes[i]? = some size → f (a + i + 1) = f (a + i) + size)
    : cumulate (f a) sizes = (List.range' (a + 1) sizes.length).map f := by
  induction sizes generalizing a with
  | nil => rfl
  | cons size sizes ih =>
    have hsize : f (a + 1) = f a + size := h 0 size rfl
    unfold cumulate
    rw [length_cons, List.range'_succ, map_cons, ← hsize, ih]
    intro i size' hi
    have := h (i + 1) size' hi
    rw [show a + 1 + i = a + (i + 1) by omega]
    exact this

structure Filled (doms done dominated indices : List Nat) : Prop where
  length_dominated : dominated.length = doms.length
  length_indices : indices.length = doms.length
  filled : ∀ b < doms.length, ∃ start, indices[b]? = some start ∧ start + done.count b = before doms (b + 1)
    ∧ (dominated.drop start).take (done.count b) = bucket done b

theorem Filled.start {indices : List Nat} (h : ∀ b < doms.length, indices[b]? = some (before doms (b + 1)))
    (hlength : indices.length = doms.length) : Filled doms [] (List.replicate doms.length 0) indices where
  length_dominated := length_replicate
  length_indices := hlength
  filled := fun b hb => ⟨before doms (b + 1), h b hb, rfl, rfl⟩

theorem take_drop_set_of_le {α : Type} {l : List α} {i start n : Nat} {a : α} (h : start + n ≤ i)
    : ((l.set i a).drop start).take n = (l.drop start).take n := by
  rw [take_drop, take_drop, take_set_of_le h]

theorem take_drop_set_self {α : Type} {l : List α} {i n : Nat} {a : α} (h : i < l.length)
    : ((l.set i a).drop i).take (n + 1) = a :: (l.drop (i + 1)).take n := by
  rw [drop_set, if_neg (Nat.lt_irrefl i), Nat.sub_self, drop_eq_getElem_cons h, set_cons_zero, take_succ_cons]

theorem Filled.next {done rest dominated indices : List Nat} {dom : Nat} (hdoms : doms = done ++ dom :: rest)
    (h : Filled doms done dominated indices) (hdom : dom < doms.length)
    : ∃ start, indices[dom]? = some (start + 1) ∧ start < dominated.length
        ∧ Filled doms (done ++ [dom]) (dominated.set start done.length) (indices.set dom start) := by
  obtain ⟨start', hstart', hend, hslice⟩ := h.filled dom hdom
  have hcount : done.count dom + 1 ≤ doms.count dom := by
    rw [hdoms, count_append, count_cons_self]
    omega
  have hsucc := before_succ doms dom
  have hle : before doms (dom + 1) ≤ doms.length := countP_le_length
  have hlength := h.length_dominated
  obtain ⟨start, rfl⟩ : ∃ start, start' = start + 1 := ⟨start' - 1, by omega⟩
  refine ⟨start, hstart', by omega, ?_, ?_, ?_⟩
  . rw [length_set]
    exact h.length_dominated
  . rw [length_set]
    exact h.length_indices
  intro b hb
  rw [count_append, bucket_concat, List.getElem?_set, h.length_indices]
  by_cases hdb : dom = b
  . subst hdb
    rw [if_pos rfl, if_pos hdom, if_pos rfl, count_singleton_self]
    refine ⟨start, rfl, by omega, ?_⟩
    rw [← hslice]
    exact take_drop_set_self (by omega)
  rw [if_neg hdb, if_neg hdb, count_singleton, if_neg (by simpa using hdb), Nat.add_zero]
  obtain ⟨start'', hstart'', hend'', hslice''⟩ := h.filled b hb
  refine ⟨start'', hstart'', hend'', ?_⟩
  rw [← hslice'']
  rcases Nat.lt_or_gt_of_ne hdb with hlt | hlt
  . have hmono := before_mono doms (show dom + 1 ≤ b by omega)
    have hsucc'' := before_succ doms b
    have : done.count b ≤ doms.count b := by
      rw [hdoms, count_append]
      omega
    rw [drop_set_of_lt (by omega)]
  . have hmono := before_mono doms (show b + 1 ≤ dom by omega)
    exact take_drop_set_of_le (by omega)

theorem fillBuckets_eq {done rest dominated indices : List Nat} (hdoms : doms = done ++ rest)
    (hlt : ∀ dom ∈ doms, dom < doms.length) (h : Filled doms done dominated indices)
    : ∃ dominated' indices', fillBuckets done.length rest dominated indices = some (dominated', indices')
        ∧ Filled doms doms dominated' indices' := by
  induction rest generalizing done dominated indices with
  | nil =>
    rw [append_nil] at hdoms
    subst hdoms
    exact ⟨dominated, indices, rfl, h⟩
  | cons dom rest ih =>
    have hdom : dom < doms.length := by
      apply hlt
      rw [hdoms]
      exact mem_append_right _ mem_cons_self
    obtain ⟨start, hstart, hbound, hnext⟩ := h.next hdoms hdom
    unfold fillBuckets
    rw [hstart]
    dsimp only
    rw [if_pos hbound]
    have := ih (by rw [hdoms, append_assoc]; rfl) hnext
    rw [length_append, length_singleton] at this
    exact this

theorem Create_eq (hlt : ∀ dom ∈ doms, dom < doms.length)
    : ∃ sets, DominatedSets.Create doms = some sets ∧ sets.dominated.length = doms.length
        ∧ sets.indices.length = doms.length ∧ ∀ b < doms.length, sets.indices[b]? = some (before doms b)
          ∧ (sets.dominated.drop (before doms b)).take (doms.count b) = bucket doms b := by
  have hcumulate : cumulate 0 ((List.range doms.length).map doms.count)
      = (List.range' 1 doms.length).map (before doms) := by
    have := cumulate_eq (before doms) 0 ((List.range doms.length).map doms.count) ?_
    . rw [before_zero, length_map, length_range] at this
      exact this
    intro i size hi
    rw [List.getElem?_map, Option.map_eq_some_iff] at hi
    obtain ⟨b, hb, rfl⟩ := hi
    obtain ⟨_, rfl⟩ := List.getElem?_eq_some_iff.mp hb
    rw [getElem_range, Nat.zero_add, before_succ]
  have hends : ∀ b < doms.length, ((List.range' 1 doms.length).map (before doms))[b]? = some (before doms (b + 1)) := by
    intro b hb
    rw [List.getElem?_map, List.getElem?_range' hb, Option.map_some, Nat.one_mul, Nat.add_comm]
  have hstart := Filled.start hends (by rw [length_map, length_range'])
  obtain ⟨dominated, indices, hfill, h⟩ := fillBuckets_eq (nil_append doms).symm hlt hstart
  refine ⟨⟨dominated, indices⟩, ?_, h.length_dominated, h.length_indices, fun b hb => ?_⟩
  . unfold DominatedSets.Create
    dsimp only
    rw [countSizes_eq hlt, some_bind, hcumulate, length_nil] at *
    rw [hfill]
    rfl
  . obtain ⟨start, hindex, hend, hslice⟩ := h.filled b hb
    have := before_succ doms b
    obtain rfl : start = before doms b := by omega
    exact ⟨hindex, hslice⟩

theorem dominatedSet_eq {Node : Type} {sets : DominatedSets} (hcreate : DominatedSets.Create doms = some sets)
    (hlt : ∀ dom ∈ doms, dom < doms.length) (postOrder : List Node) {b : Nat} (hb : b < doms.length)
    : sets.dominatedSet postOrder b = (bucket doms b).mapM fun i => postOrder[i]? := by
  obtain ⟨sets', hsets, hdominated, hindices, h⟩ := Create_eq hlt
  obtain rfl := Option.some.inj (hcreate.symm.trans hsets)
  have hlast : (if b = sets.indices.length - 1 then some sets.dominated.length else sets.indices[b + 1]?)
      = some (before doms (b + 1)) := by
    rw [hindices, hdominated]
    split
    next hb' =>
      rw [show b + 1 = doms.length by omega, before_eq_length hlt]
    next hb' => exact (h (b + 1) (by omega)).1
  unfold dominatedSet
  rw [(h b hb).1, some_bind, hlast, some_bind, before_succ, Nat.add_sub_cancel_left, (h b hb).2]

end DominatedSets

variable {Node Name : Type} {edges : Node → List (Edge Node Name)} {root : Node}

section Order

variable {nodes : List Node} {visited : List (Node × Edge Node Name)} {i j : Nat} {u v : Node}

theorem index_unique (h : nodes.Nodup) (hi : nodes[i]? = some v) (hj : nodes[j]? = some v) : i = j :=
  (List.getElem?_inj (List.getElem?_eq_some_iff.mp hi).1 h).mp (hi.trans hj.symm)

theorem Rooted.later (h : Rooted edges root nodes) (hi : nodes[i]? = some v) (hv : v ≠ root)
    : ∃ j u, i < j ∧ nodes[j]? = some u ∧ Succ edges u v := by
  induction nodes generalizing i with
  | nil => exact absurd hi nofun
  | cons w nodes ih =>
    cases i with
    | zero =>
      obtain rfl : w = v := Option.some.inj hi
      obtain ⟨u, hu, hsucc⟩ := h.1 hv
      obtain ⟨j, hj⟩ := mem_iff_getElem?.mp hu
      exact ⟨j + 1, u, Nat.succ_pos j, hj, hsucc⟩
    | succ i =>
      obtain ⟨j, u, hlt, hj, hsucc⟩ := ih h.2 hi
      exact ⟨j + 1, u, Nat.succ_lt_succ hlt, hj, hsucc⟩

theorem PostOrdered.length_pos (h : PostOrdered edges root nodes visited) : 0 < nodes.length :=
  length_pos_of_mem (mem_of_getLast? h.last)

theorem PostOrdered.root_index (h : PostOrdered edges root nodes visited) : nodes[nodes.length - 1]? = some root := by
  rw [← List.getLast?_eq_getElem?]
  exact h.last

theorem PostOrdered.ne_root (h : PostOrdered edges root nodes visited) (hi : nodes[i]? = some v)
    (hlt : i < nodes.length - 1) : v ≠ root := by
  rintro rfl
  have := index_unique h.nodup hi h.root_index
  omega

end Order

namespace DominatorTree

structure Traversed (finished : List Node) (visited : List (Node × Edge Node Name)) (s : Traversal Node) : Prop where
  nodeCount : s.nodeCount = finished.length
  small : s.nodeCount < UINT32_MAX
  postOrder : s.postOrder = finished
  mem_iff : ∀ v u, u ∈ (s.predecessorSets v).getD ∅ ↔ ∃ edge, (u, edge) ∈ visited ∧ edge.referent = v

theorem Traversed.onNode {finished : List Node} {visited : List (Node × Edge Node Name)} {s : Traversal Node}
    (h : Traversed finished visited s) (v : Node)
    : (∃ s', onNode s v = some s' ∧ Traversed (finished ++ [v]) visited s')
      ∨ DominatorTree.onNode s v = none ∧ (finished ++ [v]).length = UINT32_MAX := by
  have hsmall := h.small
  unfold DominatorTree.onNode
  dsimp only
  rw [length_append, length_singleton, ← h.nodeCount]
  split
  next hfull => exact .inr ⟨rfl, hfull⟩
  next hfull =>
    refine .inl ⟨_, rfl, ?_, ?_, ?_, h.mem_iff⟩
    . rw [length_append, length_singleton, ← h.nodeCount]
    . dsimp only
      omega
    . rw [← h.postOrder]

variable [DecidableEq Node]

theorem Traversed.onEdge {finished : List Node} {visited : List (Node × Edge Node Name)} {s : Traversal Node}
    (h : Traversed finished visited s) (origin : Node) (edge : Edge Node Name)
    : ∃ s', onEdge s origin edge = some s' ∧ Traversed finished (visited ++ [(origin, edge)]) s' := by
  refine ⟨_, rfl, h.nodeCount, h.small, h.postOrder, fun v u => ?_⟩
  have hnew : (∃ e, (u, e) ∈ visited ++ [(origin, edge)] ∧ e.referent = v)
      ↔ (∃ e, (u, e) ∈ visited ∧ e.referent = v) ∨ u = origin ∧ edge.referent = v := by
    simp only [mem_append, mem_singleton, Prod.mk.injEq, or_and_right, exists_or]
    apply or_congr_right
    constructor
    . rintro ⟨e, ⟨hu, rfl⟩, hv⟩
      exact ⟨hu, hv⟩
    . rintro ⟨hu, hv⟩
      exact ⟨edge, ⟨hu, rfl⟩, hv⟩
  rw [hnew, ← h.mem_iff]
  dsimp only
  by_cases hv : v = edge.referent
  . subst hv
    rw [Function.update_self, Option.getD_some, Finset.mem_insert]
    simp only [and_true]
    exact or_comm
  . rw [Function.update_of_ne hv]
    exact (or_iff_left fun hor => hv hor.2.symm).symm

theorem doTraversal_eq [Fintype Node] (fuel : Nat)
    (hfuel : PostOrder.steps edges (PostOrder.init.addStart edges root) < fuel)
    : (∃ s nodes visited, doTraversal edges fuel root = some (some s) ∧ PostOrdered edges root nodes visited
        ∧ Traversed nodes visited s)
      ∨ doTraversal edges fuel root = some none ∧ ∃ nodes : List Node, nodes.Nodup
        ∧ (∀ v ∈ nodes, Reachable edges root v) ∧ nodes.length = UINT32_MAX := by
  apply PostOrder.Inv.start.traverse _ _ fuel _ hfuel
  . exact fun finished visited s v _ h => h.onNode v
  . exact fun finished visited s u edge h => h.onEdge u edge
  . exact ⟨rfl, show 0 < UINT32_MAX by decide, rfl, fun v u => by simp⟩

section Indices

variable {nodes : List Node} {visited : List (Node × Edge Node Name)} {i p : Nat} {u v : Node}

theorem mapNodesToTheirIndices_concat (nodes : List Node) (v : Node)
    : mapNodesToTheirIndices (nodes ++ [v]) = Function.update (mapNodesToTheirIndices nodes) v (some nodes.length) := by
  unfold mapNodesToTheirIndices
  rw [zipIdx_append, foldl_append, Nat.zero_add]
  rfl

theorem mapNodesToTheirIndices_eq_iff (h : nodes.Nodup)
    : mapNodesToTheirIndices nodes v = some i ↔ nodes[i]? = some v := by
  induction nodes using List.reverseRecOn with
  | nil => simp [mapNodesToTheirIndices]
  | append_singleton nodes w ih =>
    have hw : (nodes ++ [w])[nodes.length]? = some w := List.getElem?_concat_length
    rw [mapNodesToTheirIndices_concat]
    by_cases hv : v = w
    . subst hv
      rw [Function.update_self, Option.some.injEq]
      constructor
      . rintro rfl
        exact hw
      . exact index_unique h hw
    rw [Function.update_of_ne hv, ih (nodup_append.mp h).1]
    constructor
    . intro hi
      rw [List.getElem?_append_left (List.getElem?_eq_some_iff.mp hi).1]
      exact hi
    intro hi
    rcases Lists.getElem?_concat_cases hi with ⟨_, hi⟩ | ⟨_, rfl⟩
    . exact hi
    . exact absurd rfl hv

theorem mapNodesToTheirIndices_eq_none (h : nodes.Nodup) (hv : v ∉ nodes) : mapNodesToTheirIndices nodes v = none := by
  rw [Option.eq_none_iff_forall_ne_some]
  intro i hi
  exact hv (mem_of_getElem? ((mapNodesToTheirIndices_eq_iff h).mp hi))

structure Encoded (edges : Node → List (Edge Node Name)) (nodes : List Node) (vectors : List (List Nat)) : Prop where
  length : vectors.length = nodes.length
  root : predecessors vectors (nodes.length - 1) = []
  mem_iff : ∀ i v, i < nodes.length - 1 → nodes[i]? = some v → ∀ p, p ∈ predecessors vectors i ↔
    ∃ u, nodes[p]? = some u ∧ Succ edges u v

theorem convertPredecessorSetsToVectors_eq (order : HashOrder Node) {s : Traversal Node}
    (h : PostOrdered edges root nodes visited) (hs : Traversed nodes visited s)
    : ∃ vectors, convertPredecessorSetsToVectors order nodes s.predecessorSets (mapNodesToTheirIndices nodes)
          = some vectors ∧ Encoded edges nodes vectors := by
  let index := fun u => (mapNodesToTheirIndices nodes u).getD 0
  let vector := fun v => (order.all ((s.predecessorSets v).getD ∅)).map index
  have hpos := h.length_pos
  have hmem (v u : Node) : u ∈ (s.predecessorSets v).getD ∅ ↔ u ∈ nodes ∧ Succ edges u v := by
    rw [hs.mem_iff]
    simp only [h.visited]
    constructor
    . rintro ⟨edge, ⟨hu, hedge⟩, hv⟩
      exact ⟨hu, edge, hedge, hv⟩
    . rintro ⟨hu, edge, hedge, hv⟩
      exact ⟨edge, ⟨hu, hedge⟩, hv⟩
  have hindex (u : Node) (hu : u ∈ nodes) : mapNodesToTheirIndices nodes u = some (index u) := by
    obtain ⟨i, hi⟩ := mem_iff_getElem?.mp hu
    have heq := (mapNodesToTheirIndices_eq_iff h.nodup).mpr hi
    show mapNodesToTheirIndices nodes u = some ((mapNodesToTheirIndices nodes u).getD 0)
    rw [heq]
    rfl
  have hset (v : Node) (i : Nat) (hi : nodes[i]? = some v) (hlt : i < nodes.length - 1)
      : s.predecessorSets v = some ((s.predecessorSets v).getD ∅) := by
    obtain ⟨j, u, _, hj, hsucc⟩ := h.rooted.later hi (h.ne_root hi hlt)
    have hu := (hmem v u).mpr ⟨mem_of_getElem? hj, hsucc⟩
    cases hp : s.predecessorSets v with
    | none =>
      rw [hp] at hu
      exact absurd hu (Finset.notMem_empty u)
    | some set => rfl
  have hconvert : nodes.dropLast.mapM (fun node => do
      let predecessors ← s.predecessorSets node
      (order.all predecessors).mapM (mapNodesToTheirIndices nodes)) = some (nodes.dropLast.map vector) := by
    apply Lists.mapM_eq_some_map
    intro v hv
    obtain ⟨i, hi⟩ := mem_iff_getElem?.mp hv
    rw [List.getElem?_dropLast, Option.ite_none_right_eq_some] at hi
    rw [hset v i hi.2 hi.1, some_bind]
    apply Lists.mapM_eq_some_map
    intro u hu
    exact hindex u ((hmem v u).mp ((order.mem_all _ u).mp hu)).1
  refine ⟨nodes.dropLast.map vector ++ [[]], ?_, ?_, ?_, fun i v hlt hi p => ?_⟩
  . unfold convertPredecessorSetsToVectors
    rw [hconvert]
    rfl
  . rw [length_append, length_map, length_dropLast, length_singleton]
    omega
  . unfold predecessors
    rw [List.getElem?_append_right (by rw [length_map, length_dropLast]), length_map, length_dropLast, Nat.sub_self]
    rfl
  have hvector : predecessors (nodes.dropLast.map vector ++ [[]]) i = vector v := by
    unfold predecessors
    rw [List.getElem?_append_left (by rw [length_map, length_dropLast]; exact hlt), List.getElem?_map,
      List.getElem?_dropLast, if_pos hlt, hi]
    rfl
  rw [hvector, mem_map]
  constructor
  . rintro ⟨u, hu, rfl⟩
    obtain ⟨hu, hsucc⟩ := (hmem v u).mp ((order.mem_all _ u).mp hu)
    exact ⟨u, (mapNodesToTheirIndices_eq_iff h.nodup).mp (hindex u hu), hsucc⟩
  rintro ⟨u, hp, hsucc⟩
  have hu := mem_of_getElem? hp
  refine ⟨u, (order.mem_all _ u).mpr ((hmem v u).mpr ⟨hu, hsucc⟩), ?_⟩
  exact index_unique h.nodup ((mapNodesToTheirIndices_eq_iff h.nodup).mp (hindex u hu)) hp

open Dominators

variable {vectors : List (List Nat)}

omit [DecidableEq Node] in
theorem Encoded.exists_indexed (hvectors : Encoded edges nodes vectors) (h : PostOrdered edges root nodes visited)
    (hsmall : nodes.length ≤ UINT32_MAX) : ∃ t, Indexed (nodes.length - 1) vectors t := by
  have hpos := h.length_pos
  have hle (i : Nat) (hi : i < nodes.length - 1) (p : Nat) (hp : p ∈ predecessors vectors i) : p < nodes.length := by
    obtain ⟨u, hu, _⟩ := (hvectors.mem_iff i nodes[i] hi (List.getElem?_eq_getElem _) p).mp hp
    exact (List.getElem?_eq_some_iff.mp hu).1
  have hparent (i : Nat) : ∃ t, (i = nodes.length - 1 → t = i)
      ∧ (i < nodes.length - 1 → i < t ∧ t ∈ predecessors vectors i) := by
    by_cases hi : i < nodes.length - 1
    . have hget : nodes[i]? = some nodes[i] := List.getElem?_eq_getElem _
      obtain ⟨j, u, hlt, hj, hsucc⟩ := h.rooted.later hget (h.ne_root hget hi)
      exact ⟨j, fun heq => by omega, fun _ => ⟨hlt, (hvectors.mem_iff i _ hi hget j).mpr ⟨u, hj, hsucc⟩⟩⟩
    . exact ⟨i, fun _ => rfl, fun hlt => absurd hlt hi⟩
  choose t ht using hparent
  refine ⟨t, ?_, ?_, ⟨(ht _).1 rfl, fun i hi => ((ht i).2 hi).1, fun i hi => ?_, fun i hi => ((ht i).2 hi).2⟩, ?_⟩
  . rw [hvectors.length]
    omega
  . intro i hi p hp
    have := hle i hi p hp
    omega
  . have := hle i hi (t i) ((ht i).2 hi).2
    omega
  . unfold UNDEFINED
    omega

omit [DecidableEq Node] in
theorem Encoded.dom_iff (hvectors : Encoded edges nodes vectors) (h : PostOrdered edges root nodes visited) {x : Nat}
    (hi : nodes[i]? = some v) (hx : nodes[x]? = some u)
    : Dom (edge (predecessors vectors)) (nodes.length - 1) x i ↔ Dominates edges root u v := by
  rw [dominates_iff]
  unfold Dom
  apply not_congr
  constructor
  . intro havoids
    induction havoids generalizing v with
    | root hne =>
      obtain rfl := Option.some.inj (hi.symm.trans h.root_index)
      refine .root fun heq => hne ?_
      subst heq
      exact index_unique h.nodup hi hx
    | @step p i havoids hedge hne ih =>
      have hlt : i < nodes.length - 1 := by
        have := (List.getElem?_eq_some_iff.mp hi).1
        by_contra hge
        obtain rfl : i = nodes.length - 1 := by omega
        unfold edge at hedge
        rw [hvectors.root] at hedge
        exact absurd hedge not_mem_nil
      obtain ⟨w, hw, hsucc⟩ := (hvectors.mem_iff i v hlt hi p).mp hedge
      refine .step (ih hw) hsucc fun heq => hne ?_
      subst heq
      exact index_unique h.nodup hi hx
  . intro havoids
    induction havoids generalizing i with
    | root hne =>
      obtain rfl := index_unique h.nodup hi h.root_index
      refine .root fun heq => hne ?_
      subst heq
      exact Option.some.inj (hi.symm.trans hx)
    | @step w v havoids hsucc hne ih =>
      have hne' : i ≠ x := by
        rintro rfl
        exact hne (Option.some.inj (hi.symm.trans hx))
      by_cases hlt : i < nodes.length - 1
      . obtain ⟨p, hp⟩ := mem_iff_getElem?.mp ((h.mem_iff _).mpr (reachable_of_avoids havoids))
        exact .step (ih hp) ((hvectors.mem_iff i v hlt hi p).mpr ⟨w, hp, hsucc⟩) hne'
      have := (List.getElem?_eq_some_iff.mp hi).1
      obtain rfl : i = nodes.length - 1 := by omega
      exact .root hne'

end Indices

-- The tree that is returned: its nodes are in post-order, and the parents of their indices are the dominators.
structure Represents (edges : Node → List (Edge Node Name)) (root : Node) (tree : DominatorTree Node) : Prop where
  nodup : tree.postOrder.Nodup
  mem_iff : ∀ v, v ∈ tree.postOrder ↔ Reachable edges root v
  root_index : tree.postOrder[tree.postOrder.length - 1]? = some root
  index : tree.nodeToPostOrderIndex = mapNodesToTheirIndices tree.postOrder
  length : tree.doms.length = tree.postOrder.length
  rising : Dominators.Rising (tree.postOrder.length - 1) (parents tree.doms)
  anc_iff : ∀ i x u v, tree.postOrder[i]? = some v → tree.postOrder[x]? = some u →
    (Dominators.Anc (parents tree.doms) i x ↔ Dominates edges root u v)
  sets : DominatedSets.Create tree.doms = some tree.dominatedSets
  retainedSizes : tree.retainedSizes = none

theorem doms_lt {doms : List Nat} {n : Nat} (hpos : 0 < n) (hlength : doms.length = n)
    (hd : Dominators.Rising (n - 1) (parents doms)) : ∀ dom ∈ doms, dom < doms.length := by
  intro dom hdom
  obtain ⟨i, hi⟩ := mem_iff_getElem?.mp hdom
  have hlt := (List.getElem?_eq_some_iff.mp hi).1
  obtain rfl : parents doms i = dom := Option.some.inj ((getElem?_eq_parents hlt).symm.trans hi)
  rcases Nat.eq_or_lt_of_le (show i ≤ n - 1 by omega) with rfl | hlt'
  . rw [hd.fixed]
    omega
  . have := hd.le i hlt'
    omega

theorem Create_eq [Fintype Node] (order : HashOrder Node) (fuel : Nat)
    (hfuel : PostOrder.steps edges (PostOrder.init.addStart edges root) < fuel)
    (hcard : Fintype.card Node * Fintype.card Node + 1 < fuel)
    : (∃ tree, Create order edges fuel root = some (some tree) ∧ Represents edges root tree
        ∧ tree.postOrder.length < UINT32_MAX)
      ∨ Create order edges fuel root = some none ∧ ∃ nodes : List Node, nodes.Nodup
        ∧ (∀ v ∈ nodes, Reachable edges root v) ∧ nodes.length = UINT32_MAX := by
  unfold Create
  rcases doTraversal_eq fuel hfuel with ⟨s, nodes, visited, htraversal, h, hs⟩ | ⟨htraversal, hfull⟩
  . rw [htraversal, some_bind]
    obtain ⟨vectors, hconvert, hvectors⟩ := convertPredecessorSetsToVectors_eq order h hs
    have hsmall : nodes.length < UINT32_MAX := hs.nodeCount ▸ hs.small
    have hpos := h.length_pos
    obtain ⟨t, g⟩ := hvectors.exists_indexed h (Nat.le_of_lt hsmall)
    have hnodes : nodes.length ≤ Fintype.card Node := h.nodup.length_le_card
    have hsquare := Nat.mul_le_mul (show nodes.length - 1 ≤ Fintype.card Node by omega)
      (show nodes.length - 1 ≤ Fintype.card Node by omega)
    obtain ⟨doms, hiterate, hlength, hexact⟩ := g.iterate_eq fuel (by omega)
    rw [show nodes.length - 1 + 1 = nodes.length by omega] at hiterate hlength
    obtain ⟨sets, hsets, _⟩ := DominatedSets.Create_eq (doms_lt hpos hlength hexact.rising)
    refine .inl ⟨⟨nodes, mapNodesToTheirIndices nodes, doms, sets, none⟩, ?_, ?_, hsmall⟩
    . obtain ⟨nodeCount, postOrder, predecessorSets⟩ := s
      obtain rfl : postOrder = nodes := hs.postOrder
      dsimp only at hconvert ⊢
      rw [hconvert, some_bind, hiterate, some_bind, hsets]
      rfl
    refine ⟨h.nodup, h.mem_iff, h.root_index, rfl, hlength, hexact.rising, ?_, hsets, rfl⟩
    intro i x u v hi hx
    have hlt : i < nodes.length := (List.getElem?_eq_some_iff.mp hi).1
    rw [hexact.anc_iff i (by omega) x]
    exact hvectors.dom_iff h hi hx
  . rw [htraversal, some_bind]
    exact .inr ⟨rfl, hfull⟩

end DominatorTree
end SpiderMonkey.UbiNode
