import SpiderMonkey.UbiNode.Lemmas.ShortestPaths

/-!
This module contains what the shortest retaining paths are, and when all that are reported are such.
-/

namespace SpiderMonkey.UbiNode

open List Fintype
open BreadthFirstSearch
open ShortestPaths (allVisits inv_allVisits recordedFor)

variable {Node Name : Type} [DecidableEq Node]

def IsPath (edges : Node → List (Edge Node Name)) (u v : Node) (path : List (BackEdge Node Name)) : Prop :=
  ∃ steps, Walk (out edges) tgt u v steps ∧ steps ≠ [] ∧ steps.map backEdge = path

structure RetainingPaths (edges : Node → List (Edge Node Name)) (root : Node) (maxNumPaths : Nat) (target : Node)
    (reported : List (List (BackEdge Node Name))) : Prop where
  path : ∀ path ∈ reported, IsPath edges root target path
  some : (∃ path, IsPath edges root target path) → reported ≠ []
  none : (¬ ∃ path, IsPath edges root target path) → reported = []
  atMost : reported.length ≤ maxNumPaths
  shortest : ∀ first, reported.head? = Option.some first → ∀ path, IsPath edges root target path
    → first.length ≤ path.length
  nondecreasing : reported.Pairwise (fun path path' => path.length ≤ path'.length)
  distinct : reported.Nodup

def nodesBefore [Fintype Node] (edges : Node → List (Edge Node Name)) (root : Node) : List Node :=
  (turnsBefore root (discovered (out edges) tgt root (card Node + 1))).map Visit.node

def RootReachesItself (edges : Node → List (Edge Node Name)) (root : Node) : Prop :=
  ∃ path, IsPath edges root root path

-- As many edges as paths are recorded lead to a target from nodes that come before the root's second turn, if the
-- root is reached again and has an edge to the target.
def EnoughBefore [Fintype Node] (edges : Node → List (Edge Node Name)) (root : Node) (numPaths : Nat)
    (target : Node) : Prop :=
  RootReachesItself edges root → (∃ edge ∈ edges root, edge.referent = target)
    → numPaths ≤ ((nodesBefore edges root).flatMap edges).countP (fun edge => edge.referent = target)

section Search

variable {edges : Node → List (Edge Node Name)} {root : Node} {maxNumPaths numPaths : Nat} {target : Node}

theorem length_arrivals (disc turns : List (Visit Node (Step Node Name)))
    : (arrivals (out edges) tgt root disc target turns).length
      = ((turns.map Visit.node).flatMap edges).countP (fun edge => edge.referent = target) := by
  induction turns with
  | nil => rfl
  | cons v turns ih =>
    rw [arrivals_cons, length_append, ih, map_cons, flatMap_cons, countP_append, arrivalsFrom,
      length_map, ← countP_eq_length_filter, out, countP_map]
    rfl

theorem backEdges_injOn (hp : p ∈ arrivals (out edges) tgt root disc target turns)
    (hq : q ∈ arrivals (out edges) tgt root disc target turns) (heq : p.map backEdge = q.map backEdge)
    : p = q := by
  obtain ⟨v, _, hp⟩ := mem_flatMap.mp hp
  obtain ⟨x, hx, rfl⟩ := mem_map.mp hp
  obtain ⟨v', _, hq⟩ := mem_flatMap.mp hq
  obtain ⟨y, hy, rfl⟩ := mem_map.mp hq
  rw [mem_filter, decide_eq_true_eq] at hx hy
  have hlast := congrArg List.getLast? heq
  rw [map_append, map_append, map_singleton, map_singleton, List.getLast?_concat,
    List.getLast?_concat, Option.some.injEq] at hlast
  have hnode : x.1 = y.1 := congrArg BackEdge.predecessor hlast
  have hname : x.2.name = y.2.name := congrArg BackEdge.name hlast
  have hreferent : x.2.referent = y.2.referent := hx.2.trans hy.2.symm
  have hxy : x = y := by
    obtain ⟨u, name, referent⟩ := x
    obtain ⟨u', name', referent'⟩ := y
    simp only at hnode hname hreferent
    rw [hnode, hname, hreferent]
  rw [← fst_of_mem_out _ x hx.1, ← fst_of_mem_out _ y hy.1, hxy]

variable [Fintype Node]

theorem isPath_of_mem_arrivals {path : List (Step Node Name)}
    (h : path ∈ arrivals (out edges) tgt root (allVisits edges root) target (order root (allVisits edges root)))
    : IsPath edges root target (path.map backEdge) := by
  obtain ⟨hwalk, hne⟩ := (inv_discovered _ _ _ _).walk_of_mem_arrivals h
  exact ⟨path, hwalk, hne, rfl⟩

theorem exists_arrival_of_isPath {path : List (BackEdge Node Name)} (h : IsPath edges root target path)
    : ∃ p ∈ arrivals (out edges) tgt root (allVisits edges root) target
        (firstTurns root (allVisits edges root)), p.length ≤ path.length := by
  obtain ⟨steps, hwalk, hne, rfl⟩ := h
  have hinv := inv_allVisits edges root
  obtain ⟨p, hp, hle⟩ := hinv.exists_arrival hinv.length_le hwalk hne
  rw [length_map]
  exact ⟨p, hp, hle⟩

theorem rootReachesItself_iff
    : RootReachesItself edges root ↔ root ∈ (allVisits edges root).map Visit.node := by
  have hinv := inv_allVisits edges root
  constructor
  . rintro ⟨_, steps, hwalk, hne, rfl⟩
    obtain ⟨w, _, hnode, _, hmem⟩ := hinv.shortest hinv.length_le hwalk
    exact mem_map.mpr ⟨w, hmem hne, hnode⟩
  intro hmem
  obtain ⟨w, hw, hnode⟩ := mem_map.mp hmem
  have hwalk := hinv.walk (mem_cons_of_mem _ hw)
  obtain ⟨u, _, x, _, rfl, _⟩ := hinv.parent w hw
  rw [hnode] at hwalk
  exact ⟨_, _, hwalk, append_ne_nil_of_right_ne_nil _ (cons_ne_nil _ _), rfl⟩

theorem enoughBefore_iff
    : EnoughBefore edges root numPaths target
      ↔ Covered (out edges) tgt root (allVisits edges root) target numPaths := by
  have hedge : (∃ edge ∈ edges root, edge.referent = target) ↔ ∃ x ∈ out edges root, tgt x = target := by
    constructor
    . rintro ⟨edge, hedge, hreferent⟩
      exact ⟨(root, edge), mem_map_of_mem hedge, hreferent⟩
    rintro ⟨x, hx, htgt⟩
    obtain ⟨edge, hedge, rfl⟩ := mem_map.mp hx
    exact ⟨edge, hedge, htgt⟩
  rw [EnoughBefore, Covered, rootReachesItself_iff, hedge, length_arrivals]
  rfl

theorem retainingPaths_iff (hdistinct : ∀ u, (edges u).Nodup) (hle : numPaths ≤ maxNumPaths)
    : RetainingPaths edges root maxNumPaths target (((arrivals (out edges) tgt root (allVisits edges root) target
          (order root (allVisits edges root))).take numPaths).map (List.map backEdge))
      ↔ EnoughBefore edges root numPaths target ∧ ((∃ path, IsPath edges root target path) → 0 < numPaths) := by
  have hinv := inv_allVisits edges root
  have hout : ∀ u, (out edges u).Nodup := by
    intro u
    apply (hdistinct u).map
    intro edge edge' heq
    exact congrArg Prod.snd heq
  rw [enoughBefore_iff, ← hinv.arrivals_good_iff fst_of_mem_out hout]
  constructor
  . intro h
    have hsorted := pairwise_map.mp h.nondecreasing
    simp only [length_map] at hsorted
    refine ⟨⟨h.distinct.of_map, hsorted⟩, fun hreachable => Nat.pos_of_ne_zero ?_⟩
    rintro rfl
    exact h.some hreachable rfl
  rintro ⟨⟨hnodup, hsorted⟩, hpos⟩
  have hpath : ∀ path ∈ ((arrivals (out edges) tgt root (allVisits edges root)
      target (order root (allVisits edges root))).take numPaths).map
        (List.map backEdge), IsPath edges root target path := by
    intro path hpath
    obtain ⟨p, hp, rfl⟩ := mem_map.mp hpath
    exact isPath_of_mem_arrivals (mem_of_mem_take hp)
  constructor
  . exact hpath
  . rintro ⟨path, hisPath⟩ hnil
    obtain ⟨p, hp, _⟩ := exists_arrival_of_isPath hisPath
    rw [map_eq_nil_iff, take_eq_nil_iff] at hnil
    rcases hnil with hzero | hnil
    . exact absurd hzero (Nat.ne_of_gt (hpos ⟨path, hisPath⟩))
    have hmem := mem_order_of_firstTurns hp
    rw [hnil] at hmem
    cases hmem
  . intro hnone
    apply eq_nil_iff_forall_not_mem.mpr
    intro path hmem
    exact hnone ⟨path, hpath path hmem⟩
  . rw [length_map]
    exact Nat.le_trans (length_take_le _ _) hle
  . intro first hfirst path hisPath
    obtain ⟨q, hq, hshorter⟩ := exists_arrival_of_isPath hisPath
    cases hall : arrivals (out edges) tgt root (allVisits edges root) target (order root (allVisits edges root)) with
    | nil =>
      rw [hall, take_nil] at hfirst
      cases hfirst
    | cons p more =>
      obtain ⟨m, rfl⟩ := Nat.exists_eq_add_of_lt (hpos ⟨path, hisPath⟩)
      rw [hall, take_succ_cons, map_cons, List.head?_cons, Option.some.injEq] at hfirst
      rw [← hfirst, length_map]
      exact Nat.le_trans (hinv.head_arrivals_le hall hq) hshorter
  . rw [pairwise_map]
    simp only [length_map]
    exact hsorted
  . apply hnodup.map_on
    intro p hp q hq heq
    exact backEdges_injOn (mem_of_mem_take hp) (mem_of_mem_take hq) heq

theorem forEachPath_exact_iff [Inhabited Node] [Inhabited Name] (hdistinct : ∀ u, (edges u).Nodup)
    {targets : Finset Node} (hpos : 0 < maxNumPaths) {fuel : Nat} (hfuel : card Node + 1 < fuel)
    : (∃ sp : ShortestPaths Node Name, ShortestPaths.Create edges fuel maxNumPaths root targets = some sp
        ∧ ∀ target ∈ targets, ∃ reported, sp.forEachPath fuel target = some reported
          ∧ RetainingPaths edges root maxNumPaths target reported)
      ↔ ∀ target ∈ targets, EnoughBefore edges root (recordedFor edges root targets maxNumPaths target) target
        ∧ ((∃ path, IsPath edges root target path) → 0 < recordedFor edges root targets maxNumPaths target) := by
  obtain ⟨sp, hcreate, hreported⟩ := ShortestPaths.create_spec root targets edges hpos hfuel
  have hle : ∀ target, recordedFor edges root targets maxNumPaths target ≤ maxNumPaths :=
    fun target => Nat.min_le_left _ _
  constructor
  . rintro ⟨sp', hcreate', hall⟩ target htarget
    rw [hcreate, Option.some.injEq] at hcreate'
    rw [← hcreate'] at hall
    obtain ⟨reported, hsome, hretaining⟩ := hall target htarget
    rw [hreported target htarget, Option.some.injEq] at hsome
    rw [← hsome] at hretaining
    exact (retainingPaths_iff hdistinct (hle target)).mp hretaining
  . intro hbefore
    refine ⟨sp, hcreate, ?_⟩
    intro target htarget
    exact ⟨_, hreported target htarget, (retainingPaths_iff hdistinct (hle target)).mpr (hbefore target htarget)⟩

end Search

def selfLoop (u : Fin 2) : List (Edge (Fin 2) Bool) := if u = 0 then [⟨false, 0⟩, ⟨true, 1⟩] else []

theorem forEachPath_exact_iff_selfLoop
    : (∀ u, (selfLoop u).Nodup) ∧ ∃ sp : ShortestPaths (Fin 2) Bool, ShortestPaths.Create selfLoop 4 1 0 {1} = some sp
      ∧ ∀ target ∈ ({1} : Finset (Fin 2)), ∃ reported, sp.forEachPath 4 target = some reported
        ∧ RetainingPaths selfLoop 0 1 target reported := by
  have hdistinct : ∀ u, (selfLoop u).Nodup := by
    decide
  refine ⟨hdistinct, ?_⟩
  apply (forEachPath_exact_iff hdistinct (by decide) (by decide)).mpr
  intro target htarget
  rw [Finset.mem_singleton.mp htarget]
  refine ⟨fun _ _ => ?_, fun _ => ?_⟩ <;> decide

theorem path_reported_twice
    : (ShortestPaths.Create selfLoop 4 2 0 {1}).bind (fun sp => sp.forEachPath 4 1) = some [[⟨0, true⟩], [⟨0, true⟩]]
      ∧ ¬ ∃ sp : ShortestPaths (Fin 2) Bool, ShortestPaths.Create selfLoop 4 2 0 {1} = some sp
        ∧ ∀ target ∈ ({1} : Finset (Fin 2)), ∃ reported, sp.forEachPath 4 target = some reported
          ∧ RetainingPaths selfLoop 0 2 target reported := by
  have htwice : (ShortestPaths.Create selfLoop 4 2 0 {1}).bind (fun sp => sp.forEachPath 4 1)
      = some [[⟨0, true⟩], [⟨0, true⟩]] := by
    decide
  refine ⟨htwice, ?_⟩
  rintro ⟨sp, hcreate, hall⟩
  obtain ⟨reported, hreported, hretaining⟩ := hall 1 (Finset.mem_singleton_self 1)
  rw [hcreate, Option.bind_some, hreported, Option.some.injEq] at htwice
  rw [htwice] at hretaining
  exact absurd hretaining.distinct (by decide)

end SpiderMonkey.UbiNode
