import Mathlib.Data.Fintype.Card
import Mathlib.Data.List.Pairwise
import Mathlib.Data.List.TakeWhile

/-!
This module contains breadth-first search over a graph with named edges. The start is not taken for discovered when
the search begins, so that it is discovered by the first edge that leads back to it, and gets a second turn.
-/

namespace BreadthFirstSearch

open List

variable {V E : Type}

section Walk

variable (out : V → List E) (tgt : E → V)

inductive Walk (u : V) : V → List E → Prop where
  | nil : Walk u u []
  | concat {v : V} {p : List E} {e : E} : Walk u v p → e ∈ out v → Walk u (tgt e) (p ++ [e])

end Walk

structure Visit (V E : Type) where
  node : V
  path : List E

def root (start : V) : Visit V E := ⟨start, []⟩

def order (start : V) (disc : List (Visit V E)) : List (Visit V E) := root start :: disc

variable (out : V → List E) (tgt : E → V) (start : V)

section Search

variable [DecidableEq V]

def discover (p : List E) (disc : List (Visit V E)) (e : E) : List (Visit V E) :=
  if tgt e ∈ disc.map Visit.node then disc else disc ++ [⟨tgt e, p ++ [e]⟩]

def turn (disc : List (Visit V E)) (n : Nat) : List (Visit V E) :=
  match (order start disc)[n]? with
  | some v => (out v.node).foldl (discover tgt v.path) disc
  | none => disc

def discovered : (turns : Nat) → List (Visit V E)
  | 0 => []
  | n + 1 => turn out tgt start (discovered n) n

end Search

variable {out tgt start}

section Order

variable {disc : List (Visit V E)} {n : Nat}

theorem order_append (more : List (Visit V E))
    : order start (disc ++ more) = order start disc ++ more := by
  rfl

theorem prefix_order (h : disc <+: disc')
    : order start disc <+: order start disc' := by
  obtain ⟨more, rfl⟩ := h
  exact ⟨more, rfl⟩

theorem getElem?_order_of_prefix (h : disc <+: disc') (hv : (order start disc)[n]? = some v)
    : (order start disc')[n]? = some v := by
  obtain ⟨more, hmore⟩ := prefix_order h
  obtain ⟨hlt, rfl⟩ := List.getElem?_eq_some_iff.mp hv
  rw [← hmore, List.getElem?_append_left hlt, List.getElem?_eq_getElem hlt]

theorem mem_take_of_prefix (hle : n ≤ m) (h : disc <+: disc') (hv : v ∈ (order start disc).take n)
    : v ∈ (order start disc').take m := by
  obtain ⟨i, hi⟩ := mem_iff_getElem?.mp hv
  rw [List.getElem?_take] at hi
  split at hi
  next hlt =>
    apply mem_iff_getElem?.mpr
    refine ⟨i, ?_⟩
    rw [List.getElem?_take, if_pos (Nat.lt_of_lt_of_le hlt hle)]
    exact getElem?_order_of_prefix h hi
  next => cases hi

structure Inv (out : V → List E) (tgt : E → V) (start : V) (n : Nat) (disc : List (Visit V E)) : Prop where
  nodup : (disc.map Visit.node).Nodup
  sorted : (order start disc).Pairwise (fun v w => v.path.length ≤ w.path.length)
  near : ∀ v, (order start disc)[n]? = some v → ∀ w ∈ disc, w.path.length ≤ v.path.length + 1
  closed : ∀ i < n, ∀ v, (order start disc)[i]? = some v → ∀ e ∈ out v.node,
    ∃ w ∈ disc, w.node = tgt e ∧ w.path.length ≤ v.path.length + 1
  parent : ∀ w ∈ disc, ∃ u ∈ (order start disc).take n, ∃ e ∈ out u.node,
    w = ⟨tgt e, u.path ++ [e]⟩ ∧ (u.node = start → u = root start)
  depth : ∀ (i : Nat) (w : Visit V E), (order start disc)[i]? = some w → w.path.length ≤ i

theorem inv_zero
    : Inv out tgt start 0 [] := by
  constructor
  . exact nodup_nil
  . exact pairwise_singleton _ _
  . intro v _ w hw
    cases hw
  . intro i hi
    exact absurd hi (Nat.not_lt_zero i)
  . intro w hw
    cases hw
  . intro i w hw
    rw [order, List.getElem?_singleton] at hw
    split at hw
    . cases hw
      exact Nat.zero_le i
    . cases hw

theorem Inv.turn_none (h : Inv out tgt start n disc) (hn : (order start disc)[n]? = none)
    : Inv out tgt start (n + 1) disc := by
  have hlength := List.getElem?_eq_none_iff.mp hn
  constructor
  . exact h.nodup
  . exact h.sorted
  . intro v hv
    obtain ⟨hlt, _⟩ := List.getElem?_eq_some_iff.mp hv
    omega
  . intro i _ v hv
    obtain ⟨hlt, _⟩ := List.getElem?_eq_some_iff.mp hv
    exact h.closed i (Nat.lt_of_lt_of_le hlt hlength) v hv
  . intro w hw
    obtain ⟨u, hu, e, he, hwe, hroot⟩ := h.parent w hw
    exact ⟨u, mem_take_of_prefix (Nat.le_succ n) prefix_rfl hu, e, he, hwe, hroot⟩
  . exact h.depth

end Order

section Discover

variable [DecidableEq V]

variable {p : List E} {disc : List (Visit V E)}

theorem discover_of_mem (h : tgt e ∈ disc.map Visit.node)
    : discover tgt p disc e = disc := by
  rw [discover, if_pos h]

theorem discover_of_not_mem (h : tgt e ∉ disc.map Visit.node)
    : discover tgt p disc e = disc ++ [⟨tgt e, p ++ [e]⟩] := by
  rw [discover, if_neg h]

theorem mem_discover (e : E)
    : tgt e ∈ (discover tgt p disc e).map Visit.node := by
  rw [discover]
  split
  next h => exact h
  next => simp

theorem prefix_discover (e : E)
    : disc <+: discover tgt p disc e := by
  rw [discover]
  split
  . exact prefix_rfl
  . exact prefix_append _ _

theorem nodup_discover (e : E) (h : (disc.map Visit.node).Nodup)
    : ((discover tgt p disc e).map Visit.node).Nodup := by
  rw [discover]
  split
  . exact h
  next hnew =>
    rw [map_append]
    refine nodup_append.mpr ⟨h, nodup_singleton _, ?_⟩
    intro a ha b hb hab
    have hb' : b = tgt e := mem_singleton.mp hb
    rw [hab, hb'] at ha
    exact hnew ha

theorem prefix_foldl_discover (es : List E)
    : disc <+: es.foldl (discover tgt p) disc := by
  induction es generalizing disc with
  | nil => exact prefix_rfl
  | cons e es ih => exact List.IsPrefix.trans (prefix_discover e) ih

theorem nodup_foldl_discover (es : List E) (h : (disc.map Visit.node).Nodup)
    : ((es.foldl (discover tgt p) disc).map Visit.node).Nodup := by
  induction es generalizing disc with
  | nil => exact h
  | cons e es ih => exact ih (nodup_discover e h)

theorem mem_foldl_discover {es : List E} (h : e ∈ es)
    : tgt e ∈ (es.foldl (discover tgt p) disc).map Visit.node := by
  induction es generalizing disc with
  | nil => cases h
  | cons e' es ih =>
    rcases mem_cons.mp h with rfl | h
    . exact (List.IsPrefix.map Visit.node (prefix_foldl_discover es)).subset (mem_discover e)
    . exact ih h

theorem exists_new_of_foldl_discover (tgt : E → V) (p : List E) (disc : List (Visit V E)) (es : List E)
    : ∃ new, es.foldl (discover tgt p) disc = disc ++ new
      ∧ ∀ w ∈ new, ∃ e ∈ es, w = ⟨tgt e, p ++ [e]⟩ ∧ tgt e ∉ disc.map Visit.node := by
  induction es generalizing disc with
  | nil => exact ⟨[], (append_nil _).symm, fun w hw => absurd hw not_mem_nil⟩
  | cons e es ih =>
    rw [foldl_cons]
    by_cases hmem : tgt e ∈ disc.map Visit.node
    . rw [discover_of_mem hmem]
      obtain ⟨new, hnew, hall⟩ := ih disc
      refine ⟨new, hnew, ?_⟩
      intro w hw
      obtain ⟨e', he', hw⟩ := hall w hw
      exact ⟨e', mem_cons_of_mem e he', hw⟩
    rw [discover_of_not_mem hmem]
    obtain ⟨new, hnew, hall⟩ := ih (disc ++ [⟨tgt e, p ++ [e]⟩])
    refine ⟨⟨tgt e, p ++ [e]⟩ :: new, by rw [hnew, append_assoc, singleton_append], ?_⟩
    intro w hw
    rcases mem_cons.mp hw with rfl | hw
    . exact ⟨e, mem_cons_self, rfl, hmem⟩
    obtain ⟨e', he', hweq, hnot⟩ := hall w hw
    refine ⟨e', mem_cons_of_mem e he', hweq, fun h => hnot ?_⟩
    rw [map_append]
    exact mem_append_left _ h

end Discover

section Turns

variable [DecidableEq V]
variable {disc : List (Visit V E)} {n : Nat}

theorem turn_of_some (h : (order start disc)[n]? = some v)
    : turn out tgt start disc n = (out v.node).foldl (discover tgt v.path) disc := by
  rw [turn, h]

theorem turn_of_none (h : (order start disc)[n]? = none)
    : turn out tgt start disc n = disc := by
  rw [turn, h]

theorem prefix_turn
    : disc <+: turn out tgt start disc n := by
  rw [turn]
  split
  . exact prefix_foldl_discover _
  . exact prefix_rfl

theorem Inv.turn_some (h : Inv out tgt start n disc) (hv : (order start disc)[n]? = some v)
    : Inv out tgt start (n + 1) ((out v.node).foldl (discover tgt v.path) disc) := by
  obtain ⟨new, hdisc, hnew⟩ := exists_new_of_foldl_discover tgt v.path disc (out v.node)
  have hnodup : ((disc ++ new).map Visit.node).Nodup := by
    rw [← hdisc]
    exact nodup_foldl_discover (out v.node) h.nodup
  have htargets : ∀ e ∈ out v.node, tgt e ∈ (disc ++ new).map Visit.node := by
    intro e he
    rw [← hdisc]
    exact mem_foldl_discover he
  rw [hdisc]
  have hprefix : disc <+: disc ++ new := prefix_append _ _
  have hlength : ∀ w ∈ new, w.path.length = v.path.length + 1 := by
    intro w hw
    obtain ⟨e, _, rfl, _⟩ := hnew w hw
    exact length_append
  have hnear : ∀ w ∈ disc ++ new, w.path.length ≤ v.path.length + 1 := by
    intro w hw
    rcases mem_append.mp hw with hw | hw
    . exact h.near v hv w hw
    . exact Nat.le_of_eq (hlength w hw)
  have hsorted : (order start (disc ++ new)).Pairwise (fun v w => v.path.length ≤ w.path.length) := by
    rw [order, ← cons_append, pairwise_append]
    refine ⟨h.sorted, ?_, ?_⟩
    . apply pairwise_of_forall_mem_list
      intro w hw w' hw'
      rw [hlength w hw, hlength w' hw']
    intro w hw w' hw'
    rw [hlength w' hw']
    rcases mem_cons.mp hw with rfl | hw
    . exact Nat.zero_le _
    . exact h.near v hv w hw
  have hv' := getElem?_order_of_prefix hprefix hv
  constructor
  . exact hnodup
  . exact hsorted
  . intro v' hnext w hw
    obtain ⟨hn, rfl⟩ := List.getElem?_eq_some_iff.mp hv'
    obtain ⟨hn', rfl⟩ := List.getElem?_eq_some_iff.mp hnext
    have hle := pairwise_iff_getElem.mp hsorted n (n + 1) hn hn' (Nat.lt_succ_self n)
    exact Nat.le_trans (hnear w hw) (Nat.succ_le_succ hle)
  . intro i hi u hu e he
    rcases Nat.lt_succ_iff_lt_or_eq.mp hi with hi | rfl
    . have hu' : (order start disc)[i]? = some u := by
        obtain ⟨hn, _⟩ := List.getElem?_eq_some_iff.mp hv
        rw [← hu]
        exact (List.getElem?_append_left (Nat.lt_trans hi hn)).symm
      obtain ⟨w, hw, hwe⟩ := h.closed i hi u hu' e he
      exact ⟨w, mem_append_left _ hw, hwe⟩
    . rw [hv', Option.some.injEq] at hu
      rw [← hu] at he ⊢
      obtain ⟨w, hw, hwe⟩ := mem_map.mp (htargets e he)
      exact ⟨w, hw, hwe, hnear w hw⟩
  . intro w hw
    rcases mem_append.mp hw with hw | hw
    . obtain ⟨u, hu, e, he, hwe, hroot⟩ := h.parent w hw
      exact ⟨u, mem_take_of_prefix (Nat.le_succ n) hprefix hu, e, he, hwe, hroot⟩
    obtain ⟨e, he, rfl, hnot⟩ := hnew w hw
    refine ⟨v, ?_, e, he, rfl, ?_⟩
    . apply mem_iff_getElem?.mpr
      refine ⟨n, ?_⟩
      rw [List.getElem?_take, if_pos (Nat.lt_succ_self n)]
      exact hv'
    -- A second turn of the start finds nothing new.
    intro hstart
    rcases Nat.eq_zero_or_pos n with rfl | hpos
    . exact (Option.some.inj hv).symm
    rw [hstart] at he
    obtain ⟨w', hw', hnode, _⟩ := h.closed 0 hpos (root start) rfl e he
    exact absurd (hnode ▸ mem_map_of_mem hw') hnot
  . intro i w hw
    rw [order, ← cons_append, List.getElem?_append] at hw
    split at hw
    . exact h.depth i w hw
    next hi =>
      have hpath := hlength w (mem_of_getElem? hw)
      have hdepth := h.depth n v hv
      obtain ⟨hn, _⟩ := List.getElem?_eq_some_iff.mp hv
      have hn' : n < (root start :: disc).length := hn
      omega

theorem inv_discovered (out : V → List E) (tgt : E → V) (start : V) (n : Nat)
    : Inv out tgt start n (discovered out tgt start n) := by
  induction n with
  | zero => exact inv_zero
  | succ n ih =>
    rw [discovered]
    cases hv : (order start (discovered out tgt start n))[n]? with
    | none =>
      rw [turn_of_none hv]
      exact ih.turn_none hv
    | some v =>
      rw [turn_of_some hv]
      exact ih.turn_some hv

theorem prefix_discovered (h : n ≤ m)
    : discovered out tgt start n <+: discovered out tgt start m := by
  induction h with
  | refl => exact prefix_rfl
  | step _ ih => exact List.IsPrefix.trans ih prefix_turn

end Turns

section Shortest

variable {disc : List (Visit V E)} {n : Nat}

theorem Inv.walk (h : Inv out tgt start n disc) (hw : w ∈ order start disc)
    : Walk out tgt start w.node w.path := by
  generalize hk : w.path.length = k
  induction k using Nat.strong_induction_on generalizing w with
  | _ k ih =>
    rcases mem_cons.mp hw with rfl | hw
    . exact Walk.nil
    obtain ⟨u, hu, e, he, rfl, _⟩ := h.parent w hw
    have hlt : u.path.length < k := by
      rw [← hk, length_append]
      exact Nat.lt_succ_self _
    exact Walk.concat (ih _ hlt (mem_of_mem_take hu) rfl) he

theorem Inv.shortest (h : Inv out tgt start n disc) (hover : (order start disc).length ≤ n)
    (hp : Walk out tgt start v p)
    : ∃ w ∈ order start disc, w.node = v ∧ w.path.length ≤ p.length ∧ (p ≠ [] → w ∈ disc) := by
  induction hp with
  | nil => exact ⟨root start, mem_cons_self, rfl, Nat.le_refl _, fun h => absurd rfl h⟩
  | concat _ he ih =>
    obtain ⟨u, hu, rfl, hle, _⟩ := ih
    obtain ⟨i, hi⟩ := mem_iff_getElem?.mp hu
    obtain ⟨hlt, _⟩ := List.getElem?_eq_some_iff.mp hi
    obtain ⟨w, hw, hnode, hwle⟩ := h.closed i (Nat.lt_of_lt_of_le hlt hover) u hi _ he
    refine ⟨w, mem_cons_of_mem _ hw, hnode, ?_, fun _ => hw⟩
    rw [length_append, length_singleton]
    omega

theorem Inv.length_le [Fintype V] (h : Inv out tgt start n disc)
    : (order start disc).length ≤ Fintype.card V + 1 := by
  have hle := h.nodup.length_le_card
  rw [length_map] at hle
  exact Nat.succ_le_succ hle

end Shortest

section Arrivals

variable [DecidableEq V] {disc : List (Visit V E)} {n : Nat} {t : V}

def way (start : V) (disc : List (Visit V E)) (u : V) : List E :=
  if u = start then []
  else match disc.find? (fun w => w.node = u) with
    | some w => w.path
    | none => []

def arrivalsFrom (out : V → List E) (tgt : E → V) (start : V) (disc : List (Visit V E)) (t : V) (v : Visit V E)
    : List (List E) :=
  ((out v.node).filter (fun e => tgt e = t)).map (fun e => way start disc v.node ++ [e])

def arrivals (out : V → List E) (tgt : E → V) (start : V) (disc : List (Visit V E)) (t : V)
    (turns : List (Visit V E)) : List (List E) :=
  turns.flatMap (arrivalsFrom out tgt start disc t)

def firstTurns (start : V) (disc : List (Visit V E)) : List (Visit V E) :=
  root start :: disc.filter (fun w => w.node ≠ start)

theorem arrivals_append (turns turns' : List (Visit V E))
    : arrivals out tgt start disc t (turns ++ turns')
      = arrivals out tgt start disc t turns ++ arrivals out tgt start disc t turns' :=
  flatMap_append

theorem arrivals_cons (v : Visit V E) (turns : List (Visit V E))
    : arrivals out tgt start disc t (v :: turns)
      = arrivalsFrom out tgt start disc t v ++ arrivals out tgt start disc t turns :=
  flatMap_cons

theorem way_start
    : way start disc start = [] := by
  rw [way, if_pos rfl]

theorem Inv.way_eq (h : Inv out tgt start n disc) (hw : w ∈ disc) (hne : w.node ≠ start)
    : way start disc w.node = w.path := by
  rw [way, if_neg hne]
  cases hfind : disc.find? (fun w' => w'.node = w.node) with
  | none =>
    have hnone := List.find?_eq_none.mp hfind w hw
    simp at hnone
  | some w' =>
    have hnode : w'.node = w.node := by simpa using List.find?_some hfind
    rw [inj_on_of_nodup_map h.nodup (mem_of_find?_eq_some hfind) hw hnode]

theorem Inv.way_eq_of_mem_firstTurns (h : Inv out tgt start n disc) (hv : v ∈ firstTurns start disc)
    : way start disc v.node = v.path := by
  rcases mem_cons.mp hv with rfl | hv
  . exact way_start
  . rw [mem_filter, decide_eq_true_eq] at hv
    exact h.way_eq hv.1 hv.2

theorem firstTurns_sublist
    : (firstTurns start disc).Sublist (order start disc) :=
  List.Sublist.cons_cons _ filter_sublist

theorem Inv.firstTurns_nodup (h : Inv out tgt start n disc)
    : ((firstTurns start disc).map Visit.node).Nodup := by
  rw [firstTurns, map_cons, nodup_cons]
  constructor
  . intro hmem
    obtain ⟨w, hw, hnode⟩ := mem_map.mp hmem
    rw [mem_filter, decide_eq_true_eq] at hw
    exact hw.2 hnode
  . exact (filter_sublist.map Visit.node).nodup h.nodup

theorem Inv.arrivals_sorted (h : Inv out tgt start n disc)
    : (arrivals out tgt start disc t (firstTurns start disc)).Pairwise (fun p q => p.length ≤ q.length) := by
  rw [arrivals, pairwise_flatMap]
  constructor
  . intro v _
    apply pairwise_of_forall_mem_list
    intro p hp q hq
    obtain ⟨e, _, rfl⟩ := mem_map.mp hp
    obtain ⟨e', _, rfl⟩ := mem_map.mp hq
    rw [length_append, length_append]
    exact Nat.le_refl _
  have hsorted := h.sorted.sublist firstTurns_sublist
  apply hsorted.imp_of_mem
  intro v v' hv hv' hle p hp q hq
  obtain ⟨e, _, rfl⟩ := mem_map.mp hp
  obtain ⟨e', _, rfl⟩ := mem_map.mp hq
  rw [h.way_eq_of_mem_firstTurns hv, h.way_eq_of_mem_firstTurns hv', length_append, length_append]
  exact Nat.succ_le_succ hle

theorem Inv.arrivals_nodup {src : E → V} (h : Inv out tgt start n disc) (hsrc : ∀ u, ∀ e ∈ out u, src e = u)
    (hout : ∀ u, (out u).Nodup)
    : (arrivals out tgt start disc t (firstTurns start disc)).Nodup := by
  rw [arrivals, nodup_flatMap]
  constructor
  . intro v _
    apply ((hout v.node).filter _).map_on
    intro e _ e' _ heq
    exact singleton_inj.mp (append_cancel_left heq)
  have hnodes := pairwise_map.mp h.firstTurns_nodup
  apply hnodes.imp
  intro v v' hne p hp hp'
  obtain ⟨e, he, rfl⟩ := mem_map.mp hp
  obtain ⟨e', he', heq⟩ := mem_map.mp hp'
  have hlast := congrArg List.getLast? heq
  rw [List.getLast?_concat, List.getLast?_concat, Option.some.injEq] at hlast
  apply hne
  rw [← hsrc _ e (mem_of_mem_filter he), ← hsrc _ e' (mem_of_mem_filter he'), hlast]

def turnsBefore (start : V) (disc : List (Visit V E)) : List (Visit V E) :=
  root start :: disc.takeWhile (fun w => w.node ≠ start)

theorem Inv.firstTurns_eq_order (h : start ∉ disc.map Visit.node)
    : firstTurns start disc = order start disc := by
  rw [firstTurns, order, filter_eq_self.mpr]
  intro w hw
  rw [decide_eq_true_eq]
  intro hnode
  exact h (hnode ▸ mem_map_of_mem hw)

theorem Inv.exists_second (h : Inv out tgt start n disc) (hmem : start ∈ disc.map Visit.node)
    : ∃ second after, second.node = start ∧ order start disc = turnsBefore start disc ++ second :: after
      ∧ firstTurns start disc = turnsBefore start disc ++ after := by
  have hsplit := takeWhile_append_dropWhile (p := fun w : Visit V E => w.node ≠ start) (l := disc)
  cases hdrop : disc.dropWhile (fun w : Visit V E => w.node ≠ start) with
  | nil =>
    rw [hdrop, append_nil] at hsplit
    obtain ⟨w, hw, hnode⟩ := mem_map.mp hmem
    rw [← hsplit] at hw
    have hne := mem_takeWhile_imp hw
    rw [decide_eq_true_eq] at hne
    exact absurd hnode hne
  | cons second after =>
    rw [hdrop] at hsplit
    have hsecond : second.node = start := by
      have hhead := head_dropWhile_not (fun w : Visit V E => w.node ≠ start) (l := disc) (by rw [hdrop]; simp)
      simp only [hdrop, head_cons] at hhead
      simpa using hhead
    have hbefore : ∀ w ∈ disc.takeWhile (fun w : Visit V E => w.node ≠ start), w.node ≠ start := by
      intro w hw
      simpa using mem_takeWhile_imp hw
    have hafter : ∀ w ∈ after, w.node ≠ start := by
      intro w hw hnode
      have hnodup := h.nodup
      rw [← hsplit, map_append, map_cons, nodup_append, nodup_cons] at hnodup
      apply hnodup.2.1.1
      rw [hsecond, ← hnode]
      exact mem_map_of_mem hw
    refine ⟨second, after, hsecond, ?_, ?_⟩
    . rw [order, turnsBefore, cons_append, hsplit]
    rw [firstTurns, turnsBefore, cons_append]
    congr 1
    nth_rewrite 1 [← hsplit]
    rw [filter_append, filter_cons_of_neg (by simpa using hsecond), filter_eq_self.mpr, filter_eq_self.mpr]
    . intro w hw
      simpa using hafter w hw
    . intro w hw
      simpa using hbefore w hw

def Covered (out : V → List E) (tgt : E → V) (start : V) (disc : List (Visit V E)) (t : V) (k : Nat) : Prop :=
  start ∈ disc.map Visit.node → (∃ e ∈ out start, tgt e = t)
    → k ≤ (arrivals out tgt start disc t (turnsBefore start disc)).length

theorem arrivalsFrom_eq_nil (h : ¬ ∃ e ∈ out start, tgt e = t) (hv : v.node = start)
    : arrivalsFrom out tgt start disc t v = [] := by
  rw [arrivalsFrom, hv, filter_eq_nil_iff.mpr, map_nil]
  intro e he htgt
  exact h ⟨e, he, by simpa using htgt⟩

theorem Inv.take_sublist_of_covered (h : Inv out tgt start n disc) (hcovered : Covered out tgt start disc t k)
    : ((arrivals out tgt start disc t (order start disc)).take k).Sublist
        (arrivals out tgt start disc t (firstTurns start disc)) := by
  by_cases hmem : start ∈ disc.map Visit.node
  . obtain ⟨second, after, hsecond, horder, hfirst⟩ := h.exists_second hmem
    rw [horder, hfirst, arrivals_append, arrivals_append, arrivals_cons]
    by_cases hedge : ∃ e ∈ out start, tgt e = t
    . rw [take_append_of_le_length (hcovered hmem hedge)]
      exact (take_sublist _ _).trans (sublist_append_left _ _)
    . rw [arrivalsFrom_eq_nil hedge hsecond, nil_append]
      exact take_sublist _ _
  . rw [Inv.firstTurns_eq_order hmem]
    exact take_sublist _ _

theorem Inv.covered_of_nodup (h : Inv out tgt start n disc)
    (hnodup : ((arrivals out tgt start disc t (order start disc)).take k).Nodup)
    : Covered out tgt start disc t k := by
  intro hmem ⟨e, he, htgt⟩
  obtain ⟨second, after, hsecond, horder, _⟩ := h.exists_second hmem
  apply Nat.le_of_not_lt
  intro hlt
  have hroot : arrivalsFrom out tgt start disc t (root start) = arrivalsFrom out tgt start disc t second := by
    rw [arrivalsFrom, arrivalsFrom, hsecond]
    rfl
  cases hfrom : arrivalsFrom out tgt start disc t second with
  | nil =>
    have hmap := map_eq_nil_iff.mp hfrom
    rw [hsecond] at hmap
    exact filter_eq_nil_iff.mp hmap e he (by simpa using htgt)
  | cons p more =>
    rw [horder, arrivals_append, arrivals_cons, hfrom, cons_append, take_append, nodup_append] at hnodup
    have hp : p ∈ arrivals out tgt start disc t (turnsBefore start disc) := by
      rw [turnsBefore, arrivals_cons, hroot, hfrom]
      exact mem_append_left _ mem_cons_self
    apply hnodup.2.2 p ?_ p ?_ rfl
    . rw [take_of_length_le (Nat.le_of_lt hlt)]
      exact hp
    obtain ⟨m, hm⟩ := Nat.exists_eq_add_of_lt hlt
    rw [hm, show ∀ a, a + m + 1 - a = m + 1 by omega, take_succ_cons]
    exact mem_cons_self

theorem Inv.arrivals_good_iff {src : E → V} (h : Inv out tgt start n disc)
    (hsrc : ∀ u, ∀ e ∈ out u, src e = u) (hout : ∀ u, (out u).Nodup)
    : ((arrivals out tgt start disc t (order start disc)).take k).Nodup
        ∧ ((arrivals out tgt start disc t (order start disc)).take k).Pairwise (fun p q => p.length ≤ q.length)
      ↔ Covered out tgt start disc t k := by
  constructor
  . intro hgood
    exact h.covered_of_nodup hgood.1
  intro hcovered
  have hsublist := h.take_sublist_of_covered hcovered
  exact ⟨(h.arrivals_nodup hsrc hout).sublist hsublist, h.arrivals_sorted.sublist hsublist⟩

theorem Inv.walk_of_mem_arrivals (h : Inv out tgt start n disc)
    (hp : p ∈ arrivals out tgt start disc t (order start disc))
    : Walk out tgt start t p ∧ p ≠ [] := by
  obtain ⟨v, hv, hp⟩ := mem_flatMap.mp hp
  obtain ⟨e, he, rfl⟩ := mem_map.mp hp
  rw [mem_filter, decide_eq_true_eq] at he
  obtain ⟨he, rfl⟩ := he
  refine ⟨?_, append_ne_nil_of_right_ne_nil _ (cons_ne_nil _ _)⟩
  by_cases hstart : v.node = start
  . rw [hstart] at he ⊢
    rw [way_start]
    exact Walk.concat Walk.nil he
  rcases mem_cons.mp hv with rfl | hv
  . exact absurd rfl hstart
  . rw [h.way_eq hv hstart]
    exact Walk.concat (h.walk (mem_cons_of_mem _ hv)) he

theorem Inv.exists_arrival (h : Inv out tgt start n disc) (hover : (order start disc).length ≤ n)
    (hq : Walk out tgt start t q) (hne : q ≠ [])
    : ∃ p ∈ arrivals out tgt start disc t (firstTurns start disc), p.length ≤ q.length := by
  obtain ⟨w, _, rfl, hle, hw⟩ := h.shortest hover hq
  obtain ⟨u, hu, e, he, rfl, hroot⟩ := h.parent w (hw hne)
  have hfirst : u ∈ firstTurns start disc := by
    by_cases hstart : u.node = start
    . rw [hroot hstart]
      exact mem_cons_self
    rcases mem_cons.mp (mem_of_mem_take hu) with rfl | hu
    . exact absurd rfl hstart
    . exact mem_cons_of_mem _ (mem_filter.mpr ⟨hu, decide_eq_true hstart⟩)
  refine ⟨way start disc u.node ++ [e], ?_, ?_⟩
  . apply mem_flatMap_of_mem hfirst
    exact mem_map_of_mem (mem_filter.mpr ⟨he, decide_eq_true rfl⟩)
  . rw [h.way_eq_of_mem_firstTurns hfirst]
    exact hle

theorem mem_order_of_firstTurns (hp : p ∈ arrivals out tgt start disc t (firstTurns start disc))
    : p ∈ arrivals out tgt start disc t (order start disc) := by
  obtain ⟨v, hv, hp⟩ := mem_flatMap.mp hp
  exact mem_flatMap_of_mem (firstTurns_sublist.subset hv) hp

theorem Inv.arrivals_order_eq (h : Inv out tgt start n disc) (hedge : ¬ ∃ e ∈ out start, tgt e = t)
    : arrivals out tgt start disc t (order start disc) = arrivals out tgt start disc t (firstTurns start disc) := by
  by_cases hmem : start ∈ disc.map Visit.node
  . obtain ⟨second, after, hsecond, horder, hfirst⟩ := h.exists_second hmem
    rw [horder, hfirst, arrivals_append, arrivals_append, arrivals_cons, arrivalsFrom_eq_nil hedge hsecond, nil_append]
  . rw [Inv.firstTurns_eq_order hmem]

theorem Inv.head_arrivals_le (h : Inv out tgt start n disc) {more : List (List E)}
    (hhead : arrivals out tgt start disc t (order start disc) = p :: more)
    (hq : q ∈ arrivals out tgt start disc t (firstTurns start disc))
    : p.length ≤ q.length := by
  by_cases hedge : ∃ e ∈ out start, tgt e = t
  . obtain ⟨e, he, htgt⟩ := hedge
    have hfrom : way start disc (root start : Visit V E).node ++ [e] ∈ arrivalsFrom out tgt start disc t (root start) :=
      mem_map_of_mem (mem_filter.mpr ⟨he, decide_eq_true htgt⟩)
    rw [order, arrivals_cons] at hhead
    cases hroot : arrivalsFrom out tgt start disc t (root start) with
    | nil =>
      rw [hroot] at hfrom
      cases hfrom
    | cons p' more' =>
      rw [hroot, cons_append, List.cons.injEq] at hhead
      have hp : p ∈ arrivalsFrom out tgt start disc t (root start) := by
        rw [hroot, hhead.1]
        exact mem_cons_self
      obtain ⟨e', _, rfl⟩ := mem_map.mp hp
      have hway : way start disc (root start : Visit V E).node = [] := way_start
      rw [hway]
      exact length_pos_iff.mpr (h.walk_of_mem_arrivals (mem_order_of_firstTurns hq)).2
  . have hsorted := h.arrivals_sorted (t := t)
    rw [h.arrivals_order_eq hedge] at hhead
    rw [hhead] at hq hsorted
    rcases mem_cons.mp hq with rfl | hq
    . exact Nat.le_refl _
    . exact rel_of_pairwise_cons hsorted hq

end Arrivals

section Log

variable [DecidableEq V] {n : Nat}

def log (out : V → List E) (tgt : E → V) (start : V) (n : Nat) : List E :=
  ((order start (discovered out tgt start n)).take n).flatMap (fun v => out v.node)

theorem take_order_discovered_succ (h : n ≤ (order start (discovered out tgt start n)).length)
    : (order start (discovered out tgt start (n + 1))).take n = (order start (discovered out tgt start n)).take n := by
  obtain ⟨more, hmore⟩ : order start (discovered out tgt start n) <+: order start (discovered out tgt start (n + 1)) :=
    prefix_order (prefix_discovered (Nat.le_succ n))
  rw [← hmore, take_append_of_le_length h]

theorem log_succ_of_some (h : (order start (discovered out tgt start n))[n]? = some v)
    : log out tgt start (n + 1) = log out tgt start n ++ out v.node := by
  have hlt := (List.getElem?_eq_some_iff.mp h).1
  have hnext : (order start (discovered out tgt start (n + 1)))[n]? = some v :=
    getElem?_order_of_prefix (prefix_discovered (Nat.le_succ n)) h
  rw [log, log, take_add_one, hnext, take_order_discovered_succ (Nat.le_of_lt hlt), flatMap_append]
  simp

theorem discovered_eq_of_over (h : (order start (discovered out tgt start n)).length ≤ n) (hle : n ≤ m)
    : discovered out tgt start m = discovered out tgt start n := by
  induction hle with
  | refl => rfl
  | @step m hle ih =>
    rw [discovered, turn_of_none, ih]
    rw [ih, List.getElem?_eq_none_iff]
    exact Nat.le_trans h hle

theorem log_eq_of_over (h : (order start (discovered out tgt start n)).length ≤ n) (hle : n ≤ m)
    : log out tgt start m = log out tgt start n := by
  rw [log, log, discovered_eq_of_over h hle, take_of_length_le h, take_of_length_le (Nat.le_trans h hle)]

theorem prefix_log (h : n ≤ m)
    : log out tgt start n <+: log out tgt start m := by
  induction h with
  | refl => exact prefix_rfl
  | @step m _ ih =>
    apply List.IsPrefix.trans ih
    cases hv : (order start (discovered out tgt start m))[m]? with
    | some v =>
      rw [log_succ_of_some hv]
      exact prefix_append _ _
    | none => rw [log_eq_of_over (List.getElem?_eq_none_iff.mp hv) (Nat.le_succ m)]

theorem filter_log {src : E → V} (hsrc : ∀ u, ∀ e ∈ out u, src e = u) (tgt : E → V) (start : V) (n : Nat)
    (disc : List (Visit V E)) (t : V)
    : ((log out tgt start n).filter (fun e => tgt e = t)).map (fun e => way start disc (src e) ++ [e])
      = arrivals out tgt start disc t ((order start (discovered out tgt start n)).take n) := by
  rw [log, arrivals, filter_flatMap, map_flatMap]
  apply flatMap_congr
  intro v _
  apply map_congr_left
  intro e he
  rw [hsrc _ e (mem_of_mem_filter he)]

end Log

end BreadthFirstSearch
