import SpiderMonkey.Lib.OptionBind
import Mathlib.Algebra.Order.BigOperators.Group.Finset
import SpiderMonkey.Lib.BreadthFirstSearch
import SpiderMonkey.Lib.Lists
import SpiderMonkey.UbiNode.Impl.ShortestPaths

/-!
This module contains how the traversal for shortest paths follows the breadth-first search.
-/

namespace SpiderMonkey.UbiNode

open List
open BreadthFirstSearch

namespace Queue

variable {T : Type}

def toList (q : Queue T) : List T := q.head.drop q.frontIndex ++ q.tail

def Inv (q : Queue T) : Prop :=
  (q.frontIndex = 0 → q.tail = []) ∧ (0 < q.frontIndex → q.frontIndex < q.head.length)

theorem inv_init
    : (init : Queue T).Inv :=
  ⟨fun _ => rfl, fun h => absurd h (Nat.lt_irrefl 0)⟩

variable {q : Queue T}

theorem Inv.append (h : q.Inv) (elt : T)
    : (q.append elt).Inv ∧ (q.append elt).toList = q.toList ++ [elt] := by
  rw [Queue.append]
  split
  next hzero =>
    have htail := h.1 hzero
    refine ⟨⟨fun _ => htail, fun hpos => absurd hzero (Nat.ne_of_gt hpos)⟩, ?_⟩
    simp only [toList, htail, hzero, drop_zero, append_nil]
  next hne =>
    refine ⟨⟨fun hzero => absurd hzero hne, h.2⟩, ?_⟩
    rw [toList, toList, append_assoc]

theorem Inv.empty_iff (h : q.Inv)
    : q.empty = true ↔ q.toList = [] := by
  rw [empty, decide_eq_true_iff, toList, append_eq_nil_iff, drop_eq_nil_iff]
  constructor
  . intro hle
    refine ⟨hle, h.1 ?_⟩
    apply Nat.eq_zero_of_not_pos
    intro hpos
    exact absurd hle (Nat.not_le_of_lt (h.2 hpos))
  . intro hnil
    exact hnil.1

theorem Inv.popFront (h : q.Inv) {x : T} {more : List T} (hq : q.toList = x :: more)
    : q.front = some x ∧ q.popFront.Inv ∧ q.popFront.toList = more := by
  have hlt : q.frontIndex < q.head.length := by
    apply Nat.lt_of_not_le
    intro hle
    rw [(h.empty_iff).mp (decide_eq_true hle)] at hq
    cases hq
  rw [toList, drop_eq_getElem_cons hlt, cons_append, List.cons.injEq] at hq
  obtain ⟨hx, hmore⟩ := hq
  refine ⟨by rw [front, List.getElem?_eq_getElem hlt, hx], ?_⟩
  rw [Queue.popFront]
  split
  next hle =>
    rw [drop_eq_nil_of_le hle, nil_append] at hmore
    exact ⟨⟨fun _ => rfl, fun hpos => absurd hpos (Nat.lt_irrefl 0)⟩, by rw [toList, drop_zero, append_nil, hmore]⟩
  next hnle =>
    exact ⟨⟨fun hzero => absurd hzero (Nat.succ_ne_zero _), fun _ => Nat.lt_of_not_le hnle⟩, hmore⟩

end Queue

section Graph

variable {Node Name : Type}

abbrev Step (Node Name : Type) := Node × Edge Node Name

def out (edges : Node → List (Edge Node Name)) (u : Node) : List (Step Node Name) := (edges u).map (Prod.mk u)

def tgt (x : Step Node Name) : Node := x.2.referent

def backEdge (x : Step Node Name) : BackEdge Node Name := BackEdge.init x.1 x.2

theorem fst_of_mem_out {edges : Node → List (Edge Node Name)}
    : ∀ u, ∀ x ∈ out edges u, x.1 = u := by
  intro u x hx
  obtain ⟨edge, _, rfl⟩ := mem_map.mp hx
  rfl

end Graph

namespace ShortestPaths

variable {Node Name : Type} [DecidableEq Node]

variable {x : Step Node Name}

section Record

variable {root : Node} {targets : Finset Node} {maxNumPaths : Nat}

def pathsRecorded (targets : Finset Node) (maxNumPaths : Nat) (steps : List (Step Node Name)) : Nat :=
  ∑ v ∈ targets, min maxNumPaths (steps.countP (fun x => tgt x = v))

-- The handler compares after it has recorded a path, or found that it has as many as it wants.
abbrev Full (targets : Finset Node) (maxNumPaths : Nat) (steps : List (Step Node Name)) : Prop :=
  0 < pathsRecorded targets maxNumPaths steps
    ∧ pathsRecorded targets maxNumPaths steps = targets.card * maxNumPaths % 2 ^ 32

-- The steps up to the first one after which the search stops, which may be the last.
def searched (targets : Finset Node) (maxNumPaths : Nat) : (done : List (Step Node Name)) → List (Step Node Name)
    → List (Step Node Name)
  | done, [] => done
  | done, x :: more =>
    if Full targets maxNumPaths (done ++ [x]) then done ++ [x] else searched targets maxNumPaths (done ++ [x]) more

theorem searched_spec (targets : Finset Node) (maxNumPaths : Nat) (done more : List (Step Node Name))
    : searched targets maxNumPaths done more = done ++ more
      ∨ searched targets maxNumPaths done more <+: done ++ more
        ∧ Full targets maxNumPaths (searched targets maxNumPaths done more) := by
  induction more generalizing done with
  | nil => exact Or.inl (append_nil _).symm
  | cons x more ih =>
    rw [searched, append_cons done x more]
    by_cases hfull : Full targets maxNumPaths (done ++ [x])
    . rw [if_pos hfull]
      exact Or.inr ⟨prefix_append _ _, hfull⟩
    . rw [if_neg hfull]
      exact ih _

theorem le_countP_of_full {steps : List (Step Node Name)} (hfits : targets.card * maxNumPaths < 2 ^ 32)
    (hfull : Full targets maxNumPaths steps) {v : Node} (hv : v ∈ targets)
    : maxNumPaths ≤ steps.countP (fun x => tgt x = v) := by
  have hle : ∀ v ∈ targets, min maxNumPaths (steps.countP (fun x => tgt x = v)) ≤ maxNumPaths :=
    fun v _ => Nat.min_le_left _ _
  have hsum := hfull.2
  rw [Nat.mod_eq_of_lt hfits, pathsRecorded] at hsum
  have hall := (Finset.sum_eq_sum_iff_of_le hle).mp (by rw [hsum, Finset.sum_const, Nat.nsmul_eq_mul])
  rw [← hall v hv]
  exact Nat.min_le_right _ _

structure Records (root : Node) (targets : Finset Node) (maxNumPaths : Nat)
    (disc : List (Visit Node (Step Node Name))) (done : List (Step Node Name)) (handler : Handler Node Name)
    : Prop where
  maxNumPaths_eq : handler.shortestPaths.maxNumPaths = maxNumPaths
  root_eq : handler.shortestPaths.root = root
  targets_eq : handler.shortestPaths.targets = targets
  totalMax_eq : handler.totalMaxPathsToRecord = targets.card * maxNumPaths % 2 ^ 32
  total_eq : handler.totalPathsRecorded = pathsRecorded targets maxNumPaths done
  paths_eq : ∀ v ∈ targets, handler.shortestPaths.paths v =
    if v ∈ disc.map Visit.node then some (((done.filter (fun x => tgt x = v)).take maxNumPaths).map backEdge) else none
  nodes_iff : ∀ v, v ∈ disc.map Visit.node ↔ ∃ x ∈ done, tgt x = v

theorem countP_concat (done : List (Step Node Name)) (x : Step Node Name) (v : Node)
    : (done ++ [x]).countP (fun x => tgt x = v) = done.countP (fun x => tgt x = v) + if tgt x = v then 1 else 0 := by
  rw [countP_append, countP_singleton]
  simp only [decide_eq_true_eq]

theorem total_concat_of_not_mem {done : List (Step Node Name)} (h : tgt x ∉ targets)
    : pathsRecorded targets maxNumPaths (done ++ [x]) = pathsRecorded targets maxNumPaths done := by
  apply Finset.sum_congr rfl
  intro v hv
  have hne : tgt x ≠ v := by
    rintro rfl
    exact h hv
  rw [countP_concat, if_neg hne, Nat.add_zero]

theorem total_concat_of_mem {done : List (Step Node Name)} (h : tgt x ∈ targets)
    : pathsRecorded targets maxNumPaths (done ++ [x]) = pathsRecorded targets maxNumPaths done
        + if done.countP (fun y => tgt y = tgt x) < maxNumPaths then 1 else 0 := by
  unfold pathsRecorded
  rw [← Finset.add_sum_erase _ _ h, ← Finset.add_sum_erase targets (fun v => min maxNumPaths (done.countP _)) h]
  have hothers : ∑ v ∈ targets.erase (tgt x), min maxNumPaths ((done ++ [x]).countP (fun x => tgt x = v))
      = ∑ v ∈ targets.erase (tgt x), min maxNumPaths (done.countP (fun x => tgt x = v)) :=
    total_concat_of_not_mem (Finset.notMem_erase _ _)
  rw [hothers, countP_concat, if_pos rfl]
  split <;> omega

variable {disc : List (Visit Node (Step Node Name))} {done : List (Step Node Name)} {handler : Handler Node Name}
  {p : List (Step Node Name)}

theorem full_concat_of_not_mem (h : tgt x ∉ targets)
    : Full targets maxNumPaths (done ++ [x]) ↔ Full targets maxNumPaths done := by
  rw [Full, total_concat_of_not_mem h]

theorem pathsRecorded_pos (hpos : 0 < maxNumPaths) (h : tgt x ∈ targets)
    : 0 < pathsRecorded targets maxNumPaths (done ++ [x]) := by
  apply Finset.sum_pos' (fun _ _ => Nat.zero_le _)
  refine ⟨tgt x, h, ?_⟩
  rw [countP_concat, if_pos rfl]
  omega

theorem mem_nodes_discover {v : Node}
    : v ∈ (discover tgt p disc x).map Visit.node ↔ v ∈ disc.map Visit.node ∨ tgt x = v := by
  by_cases hmem : tgt x ∈ disc.map Visit.node
  . rw [discover_of_mem hmem]
    constructor
    . exact Or.inl
    rintro (h | rfl)
    . exact h
    . exact hmem
  . rw [discover_of_not_mem hmem, map_append, mem_append, map_singleton, mem_singleton, eq_comm]

theorem Records.nodes_iff_concat (h : Records root targets maxNumPaths disc done handler) (x : Step Node Name) (v : Node)
    : v ∈ (discover tgt p disc x).map Visit.node ↔ ∃ y ∈ done ++ [x], tgt y = v := by
  rw [mem_nodes_discover, h.nodes_iff]
  simp only [mem_append, mem_singleton, or_and_right, exists_or, exists_eq_left]

theorem filter_concat_of_ne {v : Node} (h : tgt x ≠ v)
    : (done ++ [x]).filter (fun y => tgt y = v) = done.filter (fun y => tgt y = v) := by
  rw [filter_append, filter_cons_of_neg (by simpa using h), filter_nil, append_nil]

theorem filter_concat_self (x : Step Node Name)
    : (done ++ [x]).filter (fun y => tgt y = tgt x) = done.filter (fun y => tgt y = tgt x) ++ [x] := by
  rw [filter_append, filter_cons_of_pos (by simp), filter_nil]

theorem Records.not_target (h : Records root targets maxNumPaths disc done handler) (hx : tgt x ∉ targets)
    : Records root targets maxNumPaths (discover tgt p disc x) (done ++ [x]) handler := by
  refine ⟨h.maxNumPaths_eq, h.root_eq, h.targets_eq, h.totalMax_eq, ?_, ?_, h.nodes_iff_concat x⟩
  . rw [h.total_eq, total_concat_of_not_mem hx]
  intro v hv
  have hne : tgt x ≠ v := by
    rintro rfl
    exact hx hv
  rw [h.paths_eq v hv, filter_concat_of_ne hne]
  simp only [mem_nodes_discover, hne, or_false]

theorem Records.record (h : Records root targets maxNumPaths disc done handler)
    (hx : tgt x ∈ targets) (hmore : done.countP (fun y => tgt y = tgt x) < maxNumPaths)
    : Records root targets maxNumPaths (discover tgt p disc x) (done ++ [x])
        (handler.record (tgt x) ((done.filter (fun y => tgt y = tgt x)).map backEdge ++ [backEdge x])) := by
  refine ⟨h.maxNumPaths_eq, h.root_eq, h.targets_eq, h.totalMax_eq, ?_, ?_, h.nodes_iff_concat x⟩
  . rw [total_concat_of_mem hx, if_pos hmore, ← h.total_eq]
    rfl
  intro v hv
  by_cases heq : tgt x = v
  . rw [← heq, if_pos (mem_nodes_discover.mpr (Or.inr rfl)), filter_concat_self, take_of_length_le]
    . rw [map_append, map_singleton]
      exact Function.update_self _ _ _
    . rw [length_append, ← countP_eq_length_filter, length_singleton]
      exact hmore
  have hothers : (handler.record (tgt x)
      ((done.filter (fun y => tgt y = tgt x)).map backEdge ++ [backEdge x])).shortestPaths.paths v
        = handler.shortestPaths.paths v := Function.update_of_ne (Ne.symm heq) _ _
  rw [hothers, h.paths_eq v hv, filter_concat_of_ne heq]
  simp only [mem_nodes_discover, heq, or_false]

theorem Records.full (h : Records root targets maxNumPaths disc done handler)
    (hx : tgt x ∈ targets) (hmem : tgt x ∈ disc.map Visit.node)
    (hfull : maxNumPaths ≤ done.countP (fun y => tgt y = tgt x))
    : Records root targets maxNumPaths (discover tgt p disc x) (done ++ [x]) handler := by
  refine ⟨h.maxNumPaths_eq, h.root_eq, h.targets_eq, h.totalMax_eq, ?_, ?_, h.nodes_iff_concat x⟩
  . rw [total_concat_of_mem hx, if_neg (Nat.not_lt_of_le hfull), h.total_eq, Nat.add_zero]
  intro v hv
  by_cases heq : tgt x = v
  . rw [← heq, h.paths_eq _ hx, if_pos hmem, discover_of_mem hmem, if_pos hmem, filter_concat_self,
      take_append_of_le_length]
    rw [← countP_eq_length_filter]
    exact hfull
  . rw [h.paths_eq v hv, filter_concat_of_ne heq]
    simp only [mem_nodes_discover, heq, or_false]

theorem Records.recordReferent (hpos : 0 < maxNumPaths) (h : Records root targets maxNumPaths disc done handler)
    {origin : Node} {edge : Edge Node Name} (hx : edge.referent ∈ targets) {first : Bool}
    (hfirst : first = decide (edge.referent ∉ disc.map Visit.node))
    : ∃ handler', handler.recordReferent origin edge (BackEdge.init origin edge) first = some handler'
      ∧ Records root targets maxNumPaths (discover tgt p disc (origin, edge)) (done ++ [(origin, edge)]) handler' := by
  by_cases hmem : edge.referent ∈ disc.map Visit.node
  . rw [Handler.recordReferent, hfirst, decide_eq_false (not_not_intro hmem), if_neg (by decide), h.paths_eq _ hx,
      if_pos hmem]
    simp only [length_map, length_take, h.maxNumPaths_eq]
    rw [← countP_eq_length_filter]
    split
    next hlt =>
      have hmore : done.countP (fun y => tgt y = edge.referent) < maxNumPaths := by
        omega
      refine ⟨_, rfl, ?_⟩
      rw [take_of_length_le (by rw [← countP_eq_length_filter]; exact Nat.le_of_lt hmore)]
      exact h.record (x := (origin, edge)) hx hmore
    next hnlt =>
      refine ⟨_, rfl, ?_⟩
      apply h.full (x := (origin, edge)) hx hmem
      show maxNumPaths ≤ done.countP (fun y => tgt y = edge.referent)
      omega
  . have hnone : done.filter (fun y => tgt y = edge.referent) = [] := by
      rw [filter_eq_nil_iff]
      intro y hy
      rw [decide_eq_true_eq]
      intro heq
      exact hmem ((h.nodes_iff _).mpr ⟨y, hy, heq⟩)
    have hcount : done.countP (fun y => tgt y = edge.referent) = 0 := by
      rw [countP_eq_length_filter, hnone, length_nil]
    rw [Handler.recordReferent, hfirst, decide_eq_true hmem, if_pos rfl]
    refine ⟨_, rfl, ?_⟩
    have hrecord := h.record (p := p) (x := (origin, edge)) hx (hcount.trans_lt hpos)
    have hx' : tgt (origin, edge) = edge.referent := rfl
    rw [hx', hnone, map_nil, nil_append] at hrecord
    exact hrecord

theorem Records.call (hpos : 0 < maxNumPaths) (h : Records root targets maxNumPaths disc done handler)
    (hless : ¬Full targets maxNumPaths done)
    {origin : Node} {edge : Edge Node Name} {first : Bool} (traversal : BreadthFirst Node (BackEdge Node Name))
    (back : BackEdge Node Name) (hfirst : first = decide (edge.referent ∉ disc.map Visit.node))
    : ∃ handler', handler.call traversal origin edge back first
        = some (handler', if Full targets maxNumPaths (done ++ [(origin, edge)]) then traversal.stop else traversal,
          if first then BackEdge.init origin edge else back)
      ∧ Records root targets maxNumPaths (discover tgt p disc (origin, edge)) (done ++ [(origin, edge)]) handler' := by
  rw [Handler.call, h.targets_eq]
  by_cases hx : edge.referent ∈ targets
  . obtain ⟨handler', hrecord, hrecords⟩ := h.recordReferent (p := p) hpos hx hfirst
    refine ⟨handler', ?_, hrecords⟩
    have hback : handler.recordReferent origin edge (if first then BackEdge.init origin edge else back) first
        = some handler' := by
      rw [← hrecord]
      cases first <;> rfl
    have hrecorded : 0 < pathsRecorded targets maxNumPaths (done ++ [(origin, edge)]) := pathsRecorded_pos hpos hx
    have hfull : Full targets maxNumPaths (done ++ [(origin, edge)])
        ↔ handler'.totalPathsRecorded = handler'.totalMaxPathsToRecord := by
      rw [Full, hrecords.total_eq, hrecords.totalMax_eq]
      exact and_iff_right hrecorded
    rw [if_neg (not_not_intro hx), hback]
    simp only [hfull]
    rfl
  . refine ⟨handler, ?_, h.not_target (x := (origin, edge)) hx⟩
    have hless' : ¬Full targets maxNumPaths (done ++ [(origin, edge)]) := by
      rwa [full_concat_of_not_mem hx]
    rw [if_pos hx, if_neg hless']

structure Visited (disc : List (Visit Node (Step Node Name))) (visited : Node → Option (BackEdge Node Name))
    : Prop where
  nonempty : ∀ w ∈ disc, w.path ≠ []
  none : ∀ v, v ∉ disc.map Visit.node → visited v = none
  some : ∀ w ∈ disc, visited w.node = w.path.getLast?.map backEdge

variable {visited : Node → Option (BackEdge Node Name)}

omit [DecidableEq Node] in
theorem Visited.exists_eq_some (h : Visited disc visited) {v : Node} (hv : v ∈ disc.map Visit.node)
    : ∃ back, visited v = Option.some back := by
  obtain ⟨w, hw, rfl⟩ := mem_map.mp hv
  rw [h.some w hw, List.getLast?_eq_getLast_of_ne_nil (h.nonempty w hw)]
  exact ⟨_, rfl⟩

theorem Visited.isNone_eq (h : Visited disc visited) (v : Node)
    : (visited v).isNone = decide (v ∉ disc.map Visit.node) := by
  by_cases hmem : v ∈ disc.map Visit.node
  . obtain ⟨back, hback⟩ := h.exists_eq_some hmem
    rw [hback, decide_eq_false (not_not_intro hmem)]
    rfl
  . rw [h.none v hmem, decide_eq_true hmem]
    rfl

theorem Visited.discover [Inhabited Node] [Inhabited Name] (h : Visited disc visited) (origin : Node)
    (edge : Edge Node Name)
    : Visited (discover tgt p disc (origin, edge)) (Function.update visited edge.referent
        (Option.some (if (visited edge.referent).isNone then BackEdge.init origin edge
          else (visited edge.referent).getD default))) := by
  by_cases hmem : edge.referent ∈ disc.map Visit.node
  . obtain ⟨back, hback⟩ := h.exists_eq_some hmem
    have hsame : Function.update visited edge.referent (Option.some (if (visited edge.referent).isNone
        then BackEdge.init origin edge else (visited edge.referent).getD default)) = visited := by
      rw [Function.update_eq_self_iff, hback]
      rfl
    rw [hsame, discover_of_mem hmem]
    exact h
  rw [discover_of_not_mem hmem, h.none _ hmem]
  constructor
  . intro w hw
    rcases mem_append.mp hw with hw | hw
    . exact h.nonempty w hw
    . rw [mem_singleton.mp hw]
      exact append_ne_nil_of_right_ne_nil _ (cons_ne_nil _ _)
  . intro v hv
    rw [map_append, mem_append, not_or] at hv
    have hne : v ≠ edge.referent := by
      rintro rfl
      exact hv.2 (mem_singleton_self _)
    rw [Function.update_of_ne hne, h.none v hv.1]
  . intro w hw
    rcases mem_append.mp hw with hw | hw
    . have hne : w.node ≠ edge.referent := by
        intro heq
        exact hmem (heq ▸ mem_map_of_mem hw)
      rw [Function.update_of_ne hne, h.some w hw]
    . rw [mem_singleton.mp hw, List.getLast?_concat]
      exact Function.update_self _ _ _

end Record

section Traverse

variable {root : Node} {targets : Finset Node} {maxNumPaths : Nat}
  {disc : List (Visit Node (Step Node Name))} {done : List (Step Node Name)} {handler : Handler Node Name}
  {t : BreadthFirst Node (BackEdge Node Name)}

structure Pending (root : Node) (k : Nat) (disc : List (Visit Node (Step Node Name)))
    (t : BreadthFirst Node (BackEdge Node Name)) : Prop where
  running : t.stopRequested = false
  abandon : t.abandonRequested = false
  inv : t.pending.Inv
  toList_eq : t.pending.toList = ((order root disc).drop k).map Visit.node
  le : k ≤ (order root disc).length

theorem Pending.discover {k : Nat} {p : List (Step Node Name)} {first : Bool}
    {visited' : Node → Option (BackEdge Node Name)} {mark : Bool} (h : Pending root k disc t)
    (hfirst : first = decide (tgt x ∉ disc.map Visit.node))
    : Pending root k (discover tgt p disc x)
        (if first then ⟨visited', t.pending.append (tgt x), false, false, mark⟩
          else ⟨visited', t.pending, false, false, mark⟩) := by
  rw [hfirst]
  by_cases hmem : tgt x ∈ disc.map Visit.node
  . rw [decide_eq_false (not_not_intro hmem), if_neg (by decide), discover_of_mem hmem]
    exact ⟨rfl, rfl, h.inv, h.toList_eq, h.le⟩
  rw [decide_eq_true hmem, if_pos rfl, discover_of_not_mem hmem]
  obtain ⟨hinv, htoList⟩ := h.inv.append (tgt x)
  refine ⟨rfl, rfl, hinv, ?_, ?_⟩
  . rw [htoList, h.toList_eq, order_append, drop_append_of_le_length h.le, map_append]
    rfl
  . rw [order_append, length_append]
    exact Nat.le_trans h.le (Nat.le_add_right _ _)

def Stopped (targets : Finset Node) (maxNumPaths : Nat) (done looked : List (Step Node Name))
    (t : BreadthFirst Node (BackEdge Node Name)) : Prop :=
  t.stopRequested = true ∧ ∀ more, searched targets maxNumPaths done (looked ++ more) = done ++ looked

def Running (targets : Finset Node) (maxNumPaths : Nat) (done looked : List (Step Node Name)) : Prop :=
  ¬Full targets maxNumPaths (done ++ looked)
    ∧ ∀ more, searched targets maxNumPaths done (looked ++ more) = searched targets maxNumPaths (done ++ looked) more

theorem traverseEdges_spec [Inhabited Node] [Inhabited Name] (hpos : 0 < maxNumPaths) (p : List (Step Node Name)) (origin : Node)
    (range : List (Edge Node Name)) {k : Nat} (hrecords : Records root targets maxNumPaths disc done handler)
    (hvisited : Visited disc t.visited) (hpending : Pending root k disc t) (hless : ¬Full targets maxNumPaths done)
    : ∃ handler' t' looked, BreadthFirst.traverseEdges Handler.call origin range handler t = some (handler', t')
      ∧ looked <+: range.map (Prod.mk origin)
      ∧ Records root targets maxNumPaths (looked.foldl (discover tgt p) disc) (done ++ looked) handler'
      ∧ Visited (looked.foldl (discover tgt p) disc) t'.visited
      ∧ (Stopped targets maxNumPaths done looked t' ∨ looked = range.map (Prod.mk origin)
        ∧ Pending root k (looked.foldl (discover tgt p) disc) t' ∧ Running targets maxNumPaths done looked) := by
  induction range generalizing disc done handler t with
  | nil =>
    refine ⟨handler, t, [], rfl, nil_prefix, ?_, hvisited, Or.inr ⟨rfl, hpending, ?_, fun more => ?_⟩⟩
    . rw [append_nil]
      exact hrecords
    . rw [append_nil]
      exact hless
    . rw [append_nil, nil_append]
  | cons edge range ih =>
    have hfirst := hvisited.isNone_eq edge.referent
    obtain ⟨handler₁, hcall, hrecords₁⟩ := hrecords.call (p := p) hpos hless
      { t with markReferentAsVisited := true } ((t.visited edge.referent).getD default) hfirst
    have hvisited₁ := hvisited.discover (p := p) origin edge
    rw [BreadthFirst.traverseEdges, hcall, some_bind]
    by_cases hfull : Full targets maxNumPaths (done ++ [(origin, edge)])
    . simp only [if_pos hfull, BreadthFirst.stop, Bool.or_true, if_true]
      refine ⟨handler₁, _, [(origin, edge)], rfl, ?_, hrecords₁, hvisited₁, Or.inl ⟨rfl, fun more => if_pos hfull⟩⟩
      exact prefix_append [(origin, edge)] _
    simp only [if_neg hfull, hpending.running, hpending.abandon, Bool.or_true, if_true, Bool.false_eq_true, if_false]
    have hsearched : ∀ more, searched targets maxNumPaths done ((origin, edge) :: more)
        = searched targets maxNumPaths (done ++ [(origin, edge)]) more := fun more => if_neg hfull
    have hgoOn : ∀ t₂ : BreadthFirst Node (BackEdge Node Name), Visited (discover tgt p disc (origin, edge)) t₂.visited
        → Pending root k (discover tgt p disc (origin, edge)) t₂
        → ∃ handler' t' looked, BreadthFirst.traverseEdges Handler.call origin range handler₁ t₂ = some (handler', t')
          ∧ looked <+: (edge :: range).map (Prod.mk origin)
          ∧ Records root targets maxNumPaths (looked.foldl (discover tgt p) disc) (done ++ looked) handler'
          ∧ Visited (looked.foldl (discover tgt p) disc) t'.visited
          ∧ (Stopped targets maxNumPaths done looked t' ∨ looked = (edge :: range).map (Prod.mk origin)
            ∧ Pending root k (looked.foldl (discover tgt p) disc) t' ∧ Running targets maxNumPaths done looked) := by
      intro t₂ hvisited₂ hpending₂
      obtain ⟨handler', t', looked, hrun, hprefix, hrecords', hvisited', hend⟩ :=
        ih hrecords₁ hvisited₂ hpending₂ hfull
      refine ⟨handler', t', (origin, edge) :: looked, hrun, ?_, ?_, hvisited', ?_⟩
      . rw [map_cons]
        exact (prefix_cons_inj _).mpr hprefix
      . rw [append_cons]
        exact hrecords'
      rcases hend with ⟨hstop, hend⟩ | ⟨rfl, hpending', hless', hend⟩
      . refine Or.inl ⟨hstop, fun more => ?_⟩
        rw [cons_append, hsearched, hend, append_assoc, singleton_append]
      . refine Or.inr ⟨rfl, hpending', ?_, fun more => ?_⟩
        . rw [append_cons]
          exact hless'
        . rw [cons_append, hsearched, hend, append_assoc, singleton_append]
    apply hgoOn
    . rw [apply_ite BreadthFirst.visited, ite_self]
      exact hvisited₁
    . exact hpending.discover (p := p) (x := (origin, edge)) hfirst

variable {edges : Node → List (Edge Node Name)} {n : Nat}

theorem mem_order_of_take {v : Visit Node (Step Node Name)}
    (hn : n < (order root (discovered (out edges) tgt root n)).length)
    (hv : v ∈ (order root (discovered (out edges) tgt root (n + 1))).take (n + 1))
    : v ∈ order root (discovered (out edges) tgt root n) := by
  obtain ⟨more, hmore⟩ : order root (discovered (out edges) tgt root n)
      <+: order root (discovered (out edges) tgt root (n + 1)) := prefix_order (prefix_discovered (Nat.le_succ n))
  rw [← hmore, take_append_of_le_length hn] at hv
  exact mem_of_mem_take hv

-- A turn for every node is enough.
abbrev allVisits [Fintype Node] (edges : Node → List (Edge Node Name)) (root : Node) : List (Visit Node (Step Node Name)) :=
  discovered (out edges) tgt root (Fintype.card Node + 1)

abbrev allSteps [Fintype Node] (edges : Node → List (Edge Node Name)) (root : Node) : List (Step Node Name) :=
  log (out edges) tgt root (Fintype.card Node + 1)

structure Ended [Fintype Node] (edges : Node → List (Edge Node Name)) (root : Node) (targets : Finset Node)
    (maxNumPaths : Nat) (disc : List (Visit Node (Step Node Name))) (done : List (Step Node Name)) : Prop where
  disc_prefix : disc <+: allVisits edges root
  done_prefix : done <+: allSteps edges root
  complete : done = searched targets maxNumPaths [] (allSteps edges root)
  parent : ∀ w ∈ disc, ∃ u ∈ order root disc, ∃ x ∈ out edges u.node,
    w = ⟨tgt x, u.path ++ [x]⟩ ∧ (u.node = root → u = BreadthFirstSearch.root root)
  origin : ∀ x ∈ done, ∃ u ∈ order root disc, x ∈ out edges u.node

variable [Fintype Node]

theorem inv_allVisits (edges : Node → List (Edge Node Name)) (root : Node)
    : Inv (out edges) tgt root (Fintype.card Node + 1) (allVisits edges root) :=
  inv_discovered ..

theorem ended_of_over (hover : (order root (discovered (out edges) tgt root n)).length ≤ n)
    (hrunning : Running targets maxNumPaths [] (log (out edges) tgt root n))
    : Ended edges root targets maxNumPaths (discovered (out edges) tgt root n) (log (out edges) tgt root n) := by
  have hlength := (inv_allVisits edges root).length_le
  have hsame : discovered (out edges) tgt root n = allVisits edges root
      ∧ log (out edges) tgt root n = allSteps edges root := by
    rcases Nat.le_total n (Fintype.card Node + 1) with hle | hle
    . exact ⟨(discovered_eq_of_over hover hle).symm, (log_eq_of_over hover hle).symm⟩
    . exact ⟨discovered_eq_of_over hlength hle, log_eq_of_over hlength hle⟩
  refine ⟨?_, ?_, ?_, ?_, ?_⟩
  . rw [hsame.1]
  . rw [hsame.2]
  . have hend := hrunning.2 []
    rw [append_nil] at hend
    rw [← hsame.2, hend]
    rfl
  . intro w hw
    obtain ⟨u, hu, hparent⟩ := (inv_discovered _ _ _ n).parent w hw
    exact ⟨u, mem_of_mem_take hu, hparent⟩
  . intro x hx
    obtain ⟨u, hu, hx⟩ := mem_flatMap.mp hx
    exact ⟨u, mem_of_mem_take hu, hx⟩

theorem ended_of_stopped (hn : n < (order root (discovered (out edges) tgt root n)).length)
    (hdisc : discovered (out edges) tgt root n <+: disc) (hdisc' : disc <+: discovered (out edges) tgt root (n + 1))
    (hdone : done <+: log (out edges) tgt root (n + 1)) (hend : ∀ more, searched targets maxNumPaths [] (done ++ more) = done)
    : Ended edges root targets maxNumPaths disc done := by
  have hlength := (inv_discovered (out edges) tgt root n).length_le
  have hle : n + 1 ≤ Fintype.card Node + 1 := Nat.le_trans hn hlength
  have horder := (@prefix_order _ _ root _ _ hdisc).subset
  have hall : done <+: allSteps edges root := hdone.trans (prefix_log hle)
  refine ⟨hdisc'.trans (prefix_discovered hle), hall, ?_, ?_, ?_⟩
  . obtain ⟨more, hmore⟩ := hall
    rw [← hmore, hend]
  . intro w hw
    obtain ⟨u, hu, hparent⟩ := (inv_discovered _ _ _ (n + 1)).parent w (hdisc'.subset hw)
    exact ⟨u, horder (mem_order_of_take hn hu), hparent⟩
  intro x hx
  obtain ⟨u, hu, hx⟩ := mem_flatMap.mp (hdone.subset hx)
  exact ⟨u, horder (mem_order_of_take hn hu), hx⟩

theorem traverse_spec [Inhabited Node] [Inhabited Name] (hpos : 0 < maxNumPaths) {fuel : Nat} (hfuel : Fintype.card Node + 1 - n < fuel)
    (hrecords : Records root targets maxNumPaths (discovered (out edges) tgt root n) (log (out edges) tgt root n) handler)
    (hvisited : Visited (discovered (out edges) tgt root n) t.visited)
    (hpending : Pending root n (discovered (out edges) tgt root n) t)
    (hrunning : Running targets maxNumPaths [] (log (out edges) tgt root n))
    : ∃ handler' t' disc done, BreadthFirst.traverse Handler.call edges fuel handler t = some (handler', t')
      ∧ Records root targets maxNumPaths disc done handler' ∧ Visited disc t'.visited
      ∧ Ended edges root targets maxNumPaths disc done := by
  induction fuel generalizing n handler t with
  | zero => exact absurd hfuel (Nat.not_lt_zero _)
  | succ fuel ih =>
    rw [BreadthFirst.traverse]
    by_cases hempty : t.pending.empty = true
    . rw [if_pos hempty]
      have hnil := hpending.inv.empty_iff.mp hempty
      rw [hpending.toList_eq, map_eq_nil_iff, drop_eq_nil_iff] at hnil
      exact ⟨handler, t, _, _, rfl, hrecords, hvisited, ended_of_over hnil hrunning⟩
    rw [if_neg hempty]
    have hn : n < (order root (discovered (out edges) tgt root n)).length := by
      apply Nat.lt_of_not_le
      intro hle
      apply hempty
      rw [hpending.inv.empty_iff, hpending.toList_eq, drop_eq_nil_of_le hle]
      rfl
    have hturn := List.getElem?_eq_getElem hn
    have htoList := hpending.toList_eq
    rw [drop_eq_getElem_cons hn, map_cons] at htoList
    generalize (order root (discovered (out edges) tgt root n))[n] = v at hturn htoList
    obtain ⟨hfront, hinv, hpop⟩ := hpending.inv.popFront htoList
    have hvisited₁ : Visited (discovered (out edges) tgt root n) { t with pending := t.pending.popFront }.visited :=
      hvisited
    have hpending₁ : Pending root (n + 1) (discovered (out edges) tgt root n) { t with pending := t.pending.popFront } :=
      ⟨hpending.running, hpending.abandon, hinv, hpop, hn⟩
    obtain ⟨handler₁, t₁, looked, hrun, hprefix, hrecords₁, hvisited₁, hend⟩ :=
      traverseEdges_spec hpos v.path v.node (edges v.node) hrecords hvisited₁ hpending₁ hrunning.1
    have hdiscovered : discovered (out edges) tgt root (n + 1)
        = (out edges v.node).foldl (discover tgt v.path) (discovered (out edges) tgt root n) := turn_of_some hturn
    have hlog : log (out edges) tgt root (n + 1) = log (out edges) tgt root n ++ out edges v.node :=
      log_succ_of_some hturn
    simp only [hfront, hrun, some_bind]
    rcases hend with ⟨hstopped, hend⟩ | ⟨rfl, hpending₂, hless, hend⟩
    . simp only [hstopped, if_true]
      refine ⟨handler₁, t₁, _, _, rfl, hrecords₁, hvisited₁, ended_of_stopped hn ?_ ?_ ?_ fun more => ?_⟩
      . exact prefix_foldl_discover looked
      . rw [hdiscovered]
        obtain ⟨more, hmore⟩ := hprefix
        have hout : out edges v.node = looked ++ more := hmore.symm
        rw [hout, foldl_append]
        exact prefix_foldl_discover more
      . rw [hlog]
        exact (prefix_append_right_inj _).mpr hprefix
      . rw [append_assoc]
        exact (hrunning.2 _).trans (hend more)
    . simp only [hpending₂.running, Bool.false_eq_true, if_false]
      have hout : (edges v.node).map (Prod.mk v.node) = out edges v.node := rfl
      rw [hout, ← hdiscovered] at hvisited₁ hpending₂
      rw [hout, ← hdiscovered, ← hlog] at hrecords₁
      rw [hout, ← hlog] at hless hend
      have hrunning₂ : Running targets maxNumPaths [] (log (out edges) tgt root (n + 1)) := by
        refine ⟨hless, fun more => ?_⟩
        have hbefore := hrunning.2 (out edges v.node ++ more)
        rw [← append_assoc, ← hlog] at hbefore
        exact hbefore.trans (hend more)
      have hlength := (inv_discovered (out edges) tgt root n).length_le
      exact ih (by omega) hrecords₁ hvisited₁ hpending₂ hrunning₂

end Traverse

section Paths

variable {root : Node} {targets : Finset Node} {maxNumPaths : Nat} {disc : List (Visit Node (Step Node Name))}
  {done : List (Step Node Name)} {handler : Handler Node Name} {edges : Node → List (Edge Node Name)}
  {sp : ShortestPaths Node Name} [Fintype Node]

theorem walk_spec (hroot : sp.root = root) (hvisited : Visited disc sp.backEdges)
    (hended : Ended edges root targets maxNumPaths disc done) {w : Visit Node (Step Node Name)} (hw : w ∈ order root disc)
    (hfirst : w.node = root → w = BreadthFirstSearch.root root) {fuel : Nat} (hfuel : w.path.length < fuel)
    (path : List (BackEdge Node Name))
    : sp.walk fuel w.node path = some (path ++ (w.path.map backEdge).reverse) := by
  induction fuel generalizing w path with
  | zero => exact absurd hfuel (Nat.not_lt_zero _)
  | succ fuel ih =>
    rw [walk, hroot]
    by_cases hstart : w.node = root
    . rw [if_neg (not_not_intro hstart), hfirst hstart]
      exact congrArg some (append_nil _).symm
    rcases mem_cons.mp hw with rfl | hw
    . exact absurd rfl hstart
    obtain ⟨u, hu, x, hx, rfl, hufirst⟩ := hended.parent w hw
    rw [if_pos hstart, hvisited.some _ hw, List.getLast?_concat]
    have hlength : u.path.length < fuel := by
      rw [length_append, length_singleton] at hfuel
      exact Nat.lt_of_succ_lt_succ hfuel
    have hpredecessor : (backEdge x).predecessor = u.node := fst_of_mem_out _ x hx
    have hrest := ih hu hufirst hlength (path ++ [backEdge x])
    rw [Option.map_some, some_bind, hpredecessor, hrest, append_assoc, map_append, reverse_append]
    rfl

theorem path_length_le {w : Visit Node (Step Node Name)} (hw : w ∈ order root (allVisits edges root))
    : w.path.length ≤ Fintype.card Node := by
  have hinv := inv_allVisits edges root
  obtain ⟨i, hi⟩ := mem_iff_getElem?.mp hw
  have hdepth := hinv.depth i w hi
  have hlt := (List.getElem?_eq_some_iff.mp hi).1
  have hlength := hinv.length_le
  omega

theorem pathOf_spec (hroot : sp.root = root) (hvisited : Visited disc sp.backEdges)
    (hended : Ended edges root targets maxNumPaths disc done) {fuel : Nat} (hfuel : Fintype.card Node < fuel) (hx : x ∈ done)
    : sp.pathOf fuel (backEdge x) = some ((way root (allVisits edges root) x.1 ++ [x]).map backEdge) := by
  obtain ⟨u, hu, hxu⟩ := hended.origin x hx
  have hnode : x.1 = u.node := fst_of_mem_out _ x hxu
  have hwalk : sp.walk fuel u.node [backEdge x] = some ([backEdge x]
      ++ ((way root (allVisits edges root) u.node).map backEdge).reverse) := by
    by_cases hstart : u.node = root
    . rw [hstart, way_start]
      exact walk_spec hroot hvisited hended mem_cons_self (fun _ => rfl) (Nat.lt_of_le_of_lt (Nat.zero_le _) hfuel) _
    have hlarge := (prefix_order hended.disc_prefix).subset hu
    have hdisc : u ∈ allVisits edges root := by
      rcases mem_cons.mp hlarge with rfl | hdisc
      . exact absurd rfl hstart
      . exact hdisc
    rw [(inv_discovered _ _ _ _).way_eq hdisc hstart]
    exact walk_spec hroot hvisited hended hu (fun h => absurd h hstart)
      (Nat.lt_of_le_of_lt (path_length_le hlarge) hfuel) _
  rw [pathOf, show (backEdge x).predecessor = u.node from hnode, hwalk, hnode, some_bind,
    reverse_append, reverse_reverse, map_append]
  rfl

-- How many paths are recorded for a target before the search stops.
def recordedFor (edges : Node → List (Edge Node Name)) (root : Node) (targets : Finset Node)
    (maxNumPaths : Nat) (target : Node) : Nat :=
  min maxNumPaths ((searched targets maxNumPaths [] (allSteps edges root)).countP (fun x => tgt x = target))

-- Where the product of the handler fits, a search that stops has seen enough edges to every target.
theorem recordedFor_eq (hfits : targets.card * maxNumPaths < 2 ^ 32) {v : Node} (hv : v ∈ targets)
    : recordedFor edges root targets maxNumPaths v
      = min maxNumPaths ((allSteps edges root).countP (fun x => tgt x = v)) := by
  rw [recordedFor]
  rcases searched_spec targets maxNumPaths [] (allSteps edges root) with hall | ⟨hstart, hfull⟩
  . rw [hall, nil_append]
  . have hle := le_countP_of_full hfits hfull hv
    rw [nil_append] at hstart
    rw [Nat.min_eq_left hle, Nat.min_eq_left (Nat.le_trans hle hstart.sublist.countP_le)]

omit [Fintype Node] in
theorem take_filter_of_prefix {all : List (Step Node Name)} (h : done <+: all) (v : Node) (n : Nat)
    : (done.filter (fun x => tgt x = v)).take n
      = (all.filter (fun x => tgt x = v)).take (min n (done.countP (fun x => tgt x = v))) := by
  obtain ⟨more, rfl⟩ := h
  rw [filter_append, countP_eq_length_filter, take_append_of_le_length (Nat.min_le_right _ _), ← take_take, take_length]

theorem arrivals_eq_map_log (v : Node)
    : arrivals (out edges) tgt root (allVisits edges root) v (order root (allVisits edges root))
      = ((allSteps edges root).filter (fun x => tgt x = v)).map
        (fun x => way root (allVisits edges root) x.1 ++ [x]) := by
  have hlength := (inv_allVisits edges root).length_le
  have hfilter := filter_log (@fst_of_mem_out _ _ edges) tgt root (Fintype.card Node + 1) (allVisits edges root) v
  rw [take_of_length_le hlength] at hfilter
  exact hfilter.symm

theorem forEachPath_spec (h : Records root targets maxNumPaths disc done handler)
    (hroot : sp.root = root) (hpaths : sp.paths = handler.shortestPaths.paths) (hvisited : Visited disc sp.backEdges)
    (hended : Ended edges root targets maxNumPaths disc done) {fuel : Nat} (hfuel : Fintype.card Node < fuel) {target : Node}
    (htarget : target ∈ targets)
    : sp.forEachPath fuel target = some (((arrivals (out edges) tgt root (allVisits edges root) target
          (order root (allVisits edges root))).take (recordedFor edges root targets maxNumPaths target)).map
            (List.map backEdge)) := by
  rw [arrivals_eq_map_log, recordedFor, ← hended.complete, ← map_take, ← take_filter_of_prefix hended.done_prefix,
    map_map]
  rw [forEachPath, hpaths, h.paths_eq target htarget]
  by_cases hmem : target ∈ disc.map Visit.node
  . rw [if_pos hmem]
    simp only
    rw [mapM_map]
    apply Lists.mapM_eq_some_map
    intro x hx
    have hdone := mem_of_mem_filter (mem_of_mem_take hx)
    exact pathOf_spec hroot hvisited hended hfuel hdone
  rw [if_neg hmem]
  have hnone : done.filter (fun x => tgt x = target) = [] := by
    rw [filter_eq_nil_iff]
    intro x hx
    rw [decide_eq_true_eq]
    intro heq
    exact hmem ((h.nodes_iff _).mpr ⟨x, hx, heq⟩)
  rw [hnone, take_nil, map_nil]

variable (root targets edges) in
theorem create_spec [Inhabited Node] [Inhabited Name] (hpos : 0 < maxNumPaths) {fuel : Nat}
    (hfuel : Fintype.card Node + 1 < fuel)
    : ∃ sp : ShortestPaths Node Name, Create edges fuel maxNumPaths root targets = some sp
      ∧ ∀ target ∈ targets, sp.forEachPath fuel target
        = some (((arrivals (out edges) tgt root (allVisits edges root) target
          (order root (allVisits edges root))).take (recordedFor edges root targets maxNumPaths target)).map
            (List.map backEdge)) := by
  have hzero : pathsRecorded targets maxNumPaths ([] : List (Step Node Name)) = 0 := by
    apply Finset.sum_eq_zero
    intro v _
    exact Nat.min_zero _
  have hrecords : Records root targets maxNumPaths (discovered (out edges) tgt root 0) (log (out edges) tgt root 0)
      (Handler.init (⟨maxNumPaths, root, targets, fun _ => none, fun _ => none⟩ : ShortestPaths Node Name)) := by
    refine ⟨rfl, rfl, rfl, rfl, ?_, fun _ _ => rfl, ?_⟩
    . exact hzero.symm
    . intro v
      simp [discovered, log]
  have hvisited : Visited (discovered (out edges) tgt root 0)
      ((BreadthFirst.init.addStart root).visited : Node → Option (BackEdge Node Name)) := by
    refine ⟨?_, fun _ _ => rfl, ?_⟩ <;> intro w hw <;> cases hw
  obtain ⟨hinv, htoList⟩ := (Queue.inv_init (T := Node)).append root
  have hpending : Pending root 0 (discovered (out edges) tgt root 0)
      (BreadthFirst.init.addStart root : BreadthFirst Node (BackEdge Node Name)) :=
    ⟨rfl, rfl, hinv, htoList, Nat.zero_le _⟩
  have hrunning : Running targets maxNumPaths [] (log (out edges) tgt root 0) := by
    refine ⟨fun hfull => ?_, fun more => rfl⟩
    exact absurd hzero (Nat.ne_of_gt hfull.1)
  obtain ⟨handler, t, disc, done, hrun, hrecords', hvisited', hended⟩ :=
    traverse_spec (n := 0) hpos hfuel hrecords hvisited hpending hrunning
  refine ⟨{ handler.shortestPaths with backEdges := t.visited }, ?_, ?_⟩
  . rw [Create, hrun]
    rfl
  intro target htarget
  refine forEachPath_spec hrecords' ?_ ?_ ?_ hended (Nat.lt_of_succ_lt hfuel) htarget
  . exact hrecords'.root_eq
  . rfl
  . exact hvisited'

end Paths

end ShortestPaths
end SpiderMonkey.UbiNode
