import Mathlib.Algebra.BigOperators.Group.Finset.Basic
import Mathlib.Data.Fintype.Basic
import SpiderMonkey.UbiNode.Impl.DominatorTree

/-!
This module contains the rule for the depth-first traversal: the visitors are called for all that is reachable, for
every node once and after another one that leads to it only if that one comes later.
-/

namespace SpiderMonkey.UbiNode

open List

variable {Node Name : Type} (edges : Node → List (Edge Node Name)) (root : Node)

def Succ (u v : Node) : Prop := ∃ edge ∈ edges u, edge.referent = v

abbrev Reachable (v : Node) : Prop := Relation.ReflTransGen (Succ edges) root v

def Rooted : List Node → Prop
  | [] => True
  | v :: later => (v ≠ root → ∃ u ∈ later, Succ edges u v) ∧ Rooted later

-- What the visitors have been called with when the traversal is done.
structure PostOrdered (nodes : List Node) (visited : List (Node × Edge Node Name)) : Prop where
  nodup : nodes.Nodup
  mem_iff : ∀ v, v ∈ nodes ↔ Reachable edges root v
  rooted : Rooted edges root nodes
  last : nodes.getLast? = some root
  visited : ∀ u edge, (u, edge) ∈ visited ↔ u ∈ nodes ∧ edge ∈ edges u

namespace PostOrder

def nodes (t : PostOrder Node Name) (finished : List Node) : List Node :=
  finished ++ t.stack.map OriginAndEdges.origin

structure Inv (t : PostOrder Node Name) (finished : List Node) (visited : List (Node × Edge Node Name)) : Prop where
  nodup : (t.nodes finished).Nodup
  seen : ∀ v, v ∈ t.seen ↔ v ∈ t.nodes finished
  reachable : ∀ v ∈ t.nodes finished, Reachable edges root v
  rooted : Rooted edges root (t.nodes finished)
  last : (t.nodes finished).getLast? = some root
  frames : ∀ frame ∈ t.stack, ∃ done, edges frame.origin = frame.edges ++ done
    ∧ ∀ edge ∈ done, edge.referent ∈ t.nodes finished ∧ (frame.origin, edge) ∈ visited
  closed : ∀ v ∈ finished, ∀ edge ∈ edges v, edge.referent ∈ t.nodes finished ∧ (v, edge) ∈ visited
  sound : ∀ u edge, (u, edge) ∈ visited → u ∈ t.nodes finished ∧ edge ∈ edges u

variable {edges root} {t : PostOrder Node Name} {finished : List Node} {visited : List (Node × Edge Node Name)}

section Step

variable {origin : Node} {vector : List (Edge Node Name)} {below : List (OriginAndEdges Node Name)}
  {edge : Edge Node Name}

theorem Rooted.insert {before after : List Node} (h : Rooted edges root (before ++ after))
    (hv : v ≠ root → ∃ u ∈ after, Succ edges u v) : Rooted edges root (before ++ v :: after) := by
  induction before with
  | nil => exact ⟨hv, h⟩
  | cons w before ih =>
    refine ⟨fun hw => ?_, ih h.2⟩
    obtain ⟨u, hu, hsucc⟩ := h.1 hw
    refine ⟨u, ?_, hsucc⟩
    rcases mem_append.mp hu with hu | hu
    . exact mem_append_left _ hu
    . exact mem_append_right _ (mem_cons_of_mem _ hu)

theorem Inv.pop (h : Inv edges root t finished visited) (hstack : t.stack = ⟨origin, []⟩ :: below)
    : Inv edges root { t with stack := below } (finished ++ [origin]) visited := by
  have hnodes : nodes { t with stack := below } (finished ++ [origin]) = t.nodes finished := by
    unfold nodes
    rw [hstack, append_assoc]
    rfl
  have hmem : ∀ frame ∈ below, frame ∈ t.stack := by
    intro frame hframe
    rw [hstack]
    exact mem_cons_of_mem _ hframe
  refine ⟨?_, ?_, ?_, ?_, ?_, ?_, ?_, ?_⟩
  . rw [hnodes]
    exact h.nodup
  . rw [hnodes]
    exact h.seen
  . rw [hnodes]
    exact h.reachable
  . rw [hnodes]
    exact h.rooted
  . rw [hnodes]
    exact h.last
  . rw [hnodes]
    exact fun frame hframe => h.frames frame (hmem frame hframe)
  . rw [hnodes]
    intro v hv edge hedge
    rcases mem_append.mp hv with hv | hv
    . exact h.closed v hv edge hedge
    obtain rfl := mem_singleton.mp hv
    obtain ⟨done, heq, hdone⟩ := h.frames ⟨v, []⟩ (by rw [hstack]; exact mem_cons_self)
    rw [nil_append] at heq
    exact hdone edge (heq ▸ hedge)
  . rw [hnodes]
    exact h.sound

theorem Inv.visitEdge (above : List (OriginAndEdges Node Name)) (h : Inv edges root t finished visited)
    (hstack : t.stack = above ++ ⟨origin, vector ++ [edge]⟩ :: below) (hseen : edge.referent ∈ t.nodes finished)
    : Inv edges root { t with stack := above ++ ⟨origin, vector⟩ :: below } finished (visited ++ [(origin, edge)]) := by
  have hnodes : nodes { t with stack := above ++ ⟨origin, vector⟩ :: below } finished = t.nodes finished := by
    unfold nodes
    rw [hstack, map_append, map_append]
    rfl
  have hframe : ⟨origin, vector ++ [edge]⟩ ∈ t.stack := by
    rw [hstack]
    exact mem_append_right _ mem_cons_self
  obtain ⟨done, heq, hdone⟩ := h.frames _ hframe
  have hnew : (origin, edge) ∈ visited ++ [(origin, edge)] := mem_append_right _ mem_cons_self
  have hframes (frame : OriginAndEdges Node Name) (hframe : frame ∈ t.stack) : ∃ done,
      edges frame.origin = frame.edges ++ done ∧ ∀ e ∈ done, e.referent ∈ t.nodes finished
        ∧ (frame.origin, e) ∈ visited ++ [(origin, edge)] := by
    obtain ⟨done, heq, hdone⟩ := h.frames frame hframe
    exact ⟨done, heq, fun e he => ⟨(hdone e he).1, mem_append_left _ (hdone e he).2⟩⟩
  refine ⟨?_, ?_, ?_, ?_, ?_, ?_, ?_, ?_⟩
  . rw [hnodes]
    exact h.nodup
  . rw [hnodes]
    exact h.seen
  . rw [hnodes]
    exact h.reachable
  . rw [hnodes]
    exact h.rooted
  . rw [hnodes]
    exact h.last
  . rw [hnodes]
    intro frame hmem
    rcases mem_append.mp hmem with hmem | hmem
    . exact hframes frame (by rw [hstack]; exact mem_append_left _ hmem)
    rcases mem_cons.mp hmem with rfl | hmem
    . refine ⟨edge :: done, ?_, ?_⟩
      . rw [heq, append_assoc]
        rfl
      intro e he
      rcases mem_cons.mp he with rfl | he
      . exact ⟨hseen, hnew⟩
      . exact ⟨(hdone e he).1, mem_append_left _ (hdone e he).2⟩
    . exact hframes frame (by rw [hstack]; exact mem_append_right _ (mem_cons_of_mem _ hmem))
  . rw [hnodes]
    exact fun v hv e he => ⟨(h.closed v hv e he).1, mem_append_left _ (h.closed v hv e he).2⟩
  . rw [hnodes]
    intro u e he
    rcases mem_append.mp he with he | he
    . exact h.sound u e he
    cases mem_singleton.mp he
    refine ⟨mem_append_right _ (mem_map_of_mem hframe), ?_⟩
    rw [heq]
    exact mem_append_left _ (mem_append_right _ mem_cons_self)

theorem Inv.push [DecidableEq Node] (h : Inv edges root t finished visited) {frame : OriginAndEdges Node Name}
    (hframe : frame ∈ t.stack) (hsucc : Succ edges frame.origin v) (hv : v ∉ t.nodes finished)
    : Inv edges root (pushForTraversing edges v { t with seen := insert v t.seen }) finished visited := by
  have hmem (w : Node) : w ∈ nodes (pushForTraversing edges v { t with seen := insert v t.seen }) finished
      ↔ w = v ∨ w ∈ t.nodes finished := by
    unfold nodes pushForTraversing
    simp only [map_cons, mem_append, mem_cons]
    exact or_left_comm
  have horigin : frame.origin ∈ t.stack.map OriginAndEdges.origin := mem_map_of_mem hframe
  refine ⟨?_, ?_, ?_, ?_, ?_, ?_, ?_, ?_⟩
  . exact nodup_middle.mpr (nodup_cons.mpr ⟨hv, h.nodup⟩)
  . intro w
    rw [hmem, ← h.seen]
    exact Finset.mem_insert
  . intro w hw
    rcases (hmem w).mp hw with rfl | hw
    . exact (h.reachable _ (mem_append_right _ horigin)).tail hsucc
    . exact h.reachable w hw
  . exact Rooted.insert h.rooted fun _ => ⟨frame.origin, horigin, hsucc⟩
  . have hne : t.stack.map OriginAndEdges.origin ≠ [] := ne_nil_of_mem horigin
    have hlast := h.last
    unfold nodes pushForTraversing at *
    rw [List.getLast?_append_of_ne_nil _ hne] at hlast
    rw [map_cons, List.getLast?_append_of_ne_nil _ (cons_ne_nil _ _), List.getLast?_cons_of_ne_nil hne]
    exact hlast
  . intro frame' hframe'
    rcases mem_cons.mp hframe' with rfl | hframe'
    . exact ⟨[], (append_nil _).symm, nofun⟩
    . obtain ⟨done, heq, hdone⟩ := h.frames frame' hframe'
      exact ⟨done, heq, fun e he => ⟨(hmem _).mpr (.inr (hdone e he).1), (hdone e he).2⟩⟩
  . exact fun w hw e he => ⟨(hmem _).mpr (.inr (h.closed w hw e he).1), (h.closed w hw e he).2⟩
  . exact fun u e he => ⟨(hmem _).mpr (.inr (h.sound u e he).1), (h.sound u e he).2⟩

theorem Inv.start [DecidableEq Node] : Inv edges root (init.addStart edges root) [] [] where
  nodup := nodup_singleton root
  seen := by
    intro v
    show v ∈ insert root ∅ ↔ v ∈ [root]
    rw [Finset.mem_insert, mem_singleton]
    exact or_iff_left (Finset.notMem_empty v)
  reachable := by
    intro v hv
    obtain rfl := mem_singleton.mp hv
    exact .refl
  rooted := ⟨fun hne => absurd rfl hne, trivial⟩
  last := rfl
  frames := by
    intro frame hframe
    obtain rfl := mem_singleton.mp hframe
    exact ⟨[], (append_nil _).symm, nofun⟩
  closed := nofun
  sound := nofun

theorem Inv.finish (h : Inv edges root t finished visited) (hstack : t.stack = [])
    : PostOrdered edges root finished visited := by
  have hnodes : t.nodes finished = finished := by
    unfold nodes
    rw [hstack]
    exact append_nil _
  have hlast := h.last
  rw [hnodes] at hlast
  have hclosed := h.closed
  have hsound := h.sound
  have hreachable := h.reachable
  rw [hnodes] at hclosed hsound hreachable
  refine ⟨hnodes ▸ h.nodup, ?_, hnodes ▸ h.rooted, hlast, ?_⟩
  . intro v
    constructor
    . exact hreachable v
    intro hv
    induction hv with
    | refl => exact mem_of_getLast? hlast
    | tail _ hsucc ih =>
      obtain ⟨edge, hedge, rfl⟩ := hsucc
      exact (hclosed _ ih edge hedge).1
  . intro u edge
    constructor
    . exact hsound u edge
    . exact fun ⟨hu, hedge⟩ => (hclosed u hu edge hedge).2

end Step

section Measure

def pending (stack : List (OriginAndEdges Node Name)) : Nat := (stack.map fun frame => frame.edges.length + 1).sum

theorem pending_cons (frame : OriginAndEdges Node Name) (stack : List (OriginAndEdges Node Name))
    : pending (frame :: stack) = frame.edges.length + 1 + pending stack := sum_cons

variable [Fintype Node] [DecidableEq Node]

def unseen (edges : Node → List (Edge Node Name)) (seen : Finset Node) : Nat :=
  ∑ v ∈ Finset.univ \ seen, ((edges v).length + 1)

def steps (edges : Node → List (Edge Node Name)) (t : PostOrder Node Name) : Nat :=
  unseen edges t.seen + pending t.stack

theorem unseen_insert {seen : Finset Node} (hv : v ∉ seen)
    : unseen e (insert v seen) + ((e v).length + 1) = unseen e seen := by
  unfold unseen
  rw [Finset.sdiff_insert]
  apply Finset.sum_erase_add
  exact Finset.mem_sdiff.mpr ⟨Finset.mem_univ v, hv⟩

end Measure

section Traverse

variable [Fintype Node] [DecidableEq Node] {S : Type} {onNode : S → Node → Option S}
  {onEdge : S → Node → Edge Node Name → Option S} {P : List Node → List (Node × Edge Node Name) → S → Prop}
  {Full : List Node → Prop}

theorem Inv.traverse (hnode : ∀ finished visited s v, (finished ++ [v]).Nodup → P finished visited s →
      (∃ s', onNode s v = some s' ∧ P (finished ++ [v]) visited s') ∨ onNode s v = none ∧ Full (finished ++ [v]))
    (hedge : ∀ finished visited s u edge, P finished visited s →
      ∃ s', onEdge s u edge = some s' ∧ P finished (visited ++ [(u, edge)]) s')
    (fuel : Nat) (h : Inv edges root t finished visited) (hP : P finished visited s) (hfuel : steps edges t < fuel)
    : (∃ s' nodes visited, PostOrder.traverse edges onNode onEdge fuel s t = some (some s')
        ∧ PostOrdered edges root nodes visited ∧ P nodes visited s')
      ∨ PostOrder.traverse edges onNode onEdge fuel s t = some none
        ∧ ∃ nodes : List Node, nodes.Nodup ∧ (∀ v ∈ nodes, Reachable edges root v) ∧ Full nodes := by
  induction fuel generalizing t finished visited s with
  | zero => exact absurd hfuel (Nat.not_lt_zero _)
  | succ fuel ih =>
    unfold PostOrder.traverse
    split
    next hstack => exact .inl ⟨s, finished, visited, rfl, h.finish hstack, hP⟩
    next origin vector below hstack =>
      have hsteps : steps edges t = unseen edges t.seen + (vector.length + 1 + pending below) := by
        unfold steps
        rw [hstack, pending_cons]
      split
      next hlast =>
        obtain rfl := List.getLast?_eq_none_iff.mp hlast
        have hpop := h.pop hstack
        have hnodup : (finished ++ [origin]).Nodup := (nodup_append.mp hpop.nodup).1
        rcases hnode finished visited s origin hnodup hP with ⟨s', hs', hP'⟩ | ⟨hs', hfull⟩
        . rw [hs']
          apply ih hpop hP'
          unfold steps
          dsimp only
          omega
        . rw [hs']
          refine .inr ⟨rfl, finished ++ [origin], hnodup, ?_, hfull⟩
          intro v hv
          exact hpop.reachable v (mem_append_left _ hv)
      next edge hlast =>
        obtain ⟨vector, rfl⟩ := List.getLast?_eq_some_iff.mp hlast
        obtain ⟨s', hs', hP'⟩ := hedge finished visited s origin edge hP
        rw [hs', dropLast_concat]
        rw [length_append, length_singleton] at hsteps
        dsimp only
        split
        next hseen =>
          apply ih (h.visitEdge [] hstack ((h.seen _).mp hseen)) hP'
          unfold steps
          rw [nil_append, pending_cons]
          dsimp only
          omega
        next hseen =>
          have hback : ⟨origin, vector ++ [edge]⟩ ∈ t.stack := by
            rw [hstack]
            exact mem_cons_self
          have hsucc : Succ edges origin edge.referent := by
            obtain ⟨done, heq, _⟩ := h.frames _ hback
            refine ⟨edge, ?_, rfl⟩
            rw [heq]
            exact mem_append_left _ (mem_append_right _ mem_cons_self)
          have hv := fun hmem => hseen ((h.seen edge.referent).mpr hmem)
          have hpush := (h.push hback hsucc hv).visitEdge [⟨edge.referent, edges edge.referent⟩]
            (congrArg _ hstack) (mem_append_right _ mem_cons_self)
          apply ih hpush hP'
          have hless := unseen_insert (e := edges) hseen
          change unseen edges (insert edge.referent t.seen)
            + pending (⟨edge.referent, edges edge.referent⟩ :: ⟨origin, vector⟩ :: below) < fuel
          rw [pending_cons, pending_cons]
          dsimp only
          omega

end Traverse

end PostOrder
end SpiderMonkey.UbiNode
