import SpiderMonkey.Gc.Impl.FindSCCs

/-!
This module contains the invariants of the search for strongly connected components.
-/

namespace SpiderMonkey.ComponentFinder

open List
open PointerList

section

variable {Node : Type} (edges : Node → List Node)

def Reach (u w : Node) : Prop := Relation.ReflTransGen (fun u w => w ∈ edges u) u w

def IsComponent (group : List Node) : Prop :=
  ∀ u ∈ group, ∀ w, w ∈ group ↔ Reach edges u w ∧ Reach edges w u

def Grouped (groups : List (List Node)) : Prop :=
  match groups with
  | [] => True
  | group :: groups =>
    IsComponent edges group ∧
    (∀ u ∈ group, ∀ w ∈ edges u, w ∈ group ∨ w ∈ groups.flatten) ∧
    Grouped groups

def Linked (gcNextGraphComponent : Node → Option Node) (groups : List (List Node)) : Prop :=
  match groups with
  | [] => True
  | group :: groups =>
    group ≠ [] ∧
    (∀ u ∈ group, gcNextGraphComponent u = groups.flatten.head?) ∧
    Linked gcNextGraphComponent groups

def time (s : ComponentFinder Node) (v : Node) : Nat :=
  match s.gcDiscoveryTime v with
  | .time clock => clock
  | _ => 0

-- What the fields of the nodes say about the stack and the finished groups.
structure Links (s : ComponentFinder Node) (stack : List Node) (groups : List (List Node))
    : Prop where
  stack_list : IsList s.gcNextGraphNode s.stack stack
  groups_list : IsList s.gcNextGraphNode s.firstComponent groups.flatten
  nodup : (stack ++ groups.flatten).Nodup
  finished : ∀ v, v ∈ groups.flatten ↔ s.gcDiscoveryTime v = .finished
  on_stack : ∀ v, v ∈ stack ↔ s.gcDiscoveryTime v = .time (time s v)
  sorted : stack.Pairwise (fun v w => time s w < time s v)
  lt_clock : ∀ v ∈ stack, time s v < s.clock
  clock_pos : 0 < s.clock
  low_undefined : ∀ v, s.gcDiscoveryTime v = .undefined → s.gcLowLink v = 0
  linked : Linked s.gcNextGraphComponent groups
  grouped : Grouped edges groups

-- What is known of the paths between the nodes on the stack, of which `grays` are being processed.
structure Paths (s : ComponentFinder Node) (stack grays : List Node) : Prop where
  grays_mem : ∀ g ∈ grays, g ∈ stack
  gray_reaches : ∀ g ∈ grays, ∀ v ∈ stack, time s g ≤ time s v → Reach edges g v
  reaches_gray : ∀ v ∈ stack, ∃ g ∈ grays, time s g ≤ time s v ∧ Reach edges v g
  processed : ∀ v ∈ stack, v ∉ grays → ∀ w ∈ edges v, s.gcDiscoveryTime w ≠ .undefined

end

section

variable {Node : Type} {edges : Node → List Node} {s : ComponentFinder Node} {stack : List Node}
  {groups : List (List Node)}

theorem Reach.trans (h : Reach edges u v) (h' : Reach edges v w)
    : Reach edges u w := Relation.ReflTransGen.trans h h'

theorem Reach.edge (h : w ∈ edges u) : Reach edges u w := Relation.ReflTransGen.single h

theorem Reach.refl (u : Node) : Reach edges u u := Relation.ReflTransGen.refl

theorem Grouped.closed (h : Grouped edges groups) (hu : u ∈ groups.flatten)
    (hw : w ∈ edges u) : w ∈ groups.flatten := by
  induction groups with
  | nil => simp at hu
  | cons group groups ih =>
    rw [flatten_cons, mem_append] at hu ⊢
    cases hu with
    | inl hu => exact h.2.1 u hu w hw
    | inr hu => exact Or.inr (ih h.2.2 hu)

theorem Grouped.reach_closed (h : Grouped edges groups) (hu : u ∈ groups.flatten)
    (hreach : Reach edges u w) : w ∈ groups.flatten := by
  induction hreach with
  | refl => exact hu
  | tail _ hedge ih => exact h.closed ih hedge

theorem Links.undefined (h : Links edges s stack groups)
    : s.gcDiscoveryTime v = .undefined ↔ v ∉ stack ∧ v ∉ groups.flatten := by
  rw [h.on_stack, h.finished]
  unfold time
  cases s.gcDiscoveryTime v <;> simp

theorem Links.stack_nodup (h : Links edges s stack groups) : stack.Nodup :=
  (nodup_append.mp h.nodup).1

theorem Links.not_finished (h : Links edges s stack groups) (hv : v ∈ stack)
    : v ∉ groups.flatten := fun hv' => (nodup_append.mp h.nodup).2.2 v hv v hv' rfl

theorem Links.push [DecidableEq Node] (h : Links edges s stack groups)
    (hv : s.gcDiscoveryTime v = .undefined) : Links edges (discover v s) (v :: stack) groups := by
  obtain ⟨hv_stack, hv_groups⟩ := h.undefined.mp hv
  have htime : ∀ w, w ≠ v → time (discover v s) w = time s w := by
    intro w hw
    simp [time, discover, hw]
  have htime_v : time (discover v s) v = s.clock := by simp [time, discover]
  have hne : ∀ w ∈ stack, w ≠ v := by
    intro w hw heq
    rw [heq] at hw
    exact hv_stack hw
  constructor
  . exact h.stack_list.push hv_stack
  . exact h.groups_list.update_of_not_mem hv_groups _
  . rw [cons_append, nodup_cons, mem_append]
    exact ⟨fun hmem => hmem.elim hv_stack hv_groups, h.nodup⟩
  . intro w
    rw [h.finished]
    by_cases hw : w = v
    . rw [hw, hv]
      simp [discover]
    . simp [discover, hw]
  . intro w
    by_cases hw : w = v
    . rw [hw, htime_v]
      simp [discover]
    . rw [htime w hw, mem_cons, h.on_stack]
      simp [discover, hw]
  . rw [pairwise_cons]
    constructor
    . intro w hw
      rw [htime_v, htime w (hne w hw)]
      exact h.lt_clock w hw
    apply h.sorted.imp_of_mem
    intro u w hu hw hlt
    rw [htime u (hne u hu), htime w (hne w hw)]
    exact hlt
  . intro w hw
    show _ < s.clock + 1
    rw [mem_cons] at hw
    cases hw with
    | inl hw => rw [hw, htime_v]; omega
    | inr hw =>
      rw [htime w (hne w hw)]
      have := h.lt_clock w hw
      omega
  . exact Nat.succ_pos _
  . intro w hw
    by_cases heq : w = v
    . rw [heq] at hw
      simp [discover] at hw
    . simp only [discover, Function.update_of_ne heq] at hw ⊢
      exact h.low_undefined w hw
  . exact h.linked
  . exact h.grouped

theorem Links.congr (h : Links edges s stack groups) (hnext : s'.gcNextGraphNode = s.gcNextGraphNode)
    (hcomponent : s'.gcNextGraphComponent = s.gcNextGraphComponent) (htime : s'.gcDiscoveryTime = s.gcDiscoveryTime)
    (hlow : ∀ v, s.gcDiscoveryTime v = .undefined → s'.gcLowLink v = s.gcLowLink v)
    (hclock : s'.clock = s.clock) (hstack : s'.stack = s.stack)
    (hfirst : s'.firstComponent = s.firstComponent) : Links edges s' stack groups := by
  have htime' : ∀ v, time s' v = time s v := by
    intro v
    unfold time
    rw [htime]
  constructor
  . rw [hnext, hstack]
    exact h.stack_list
  . rw [hnext, hfirst]
    exact h.groups_list
  . exact h.nodup
  . rw [htime]
    exact h.finished
  . intro v
    rw [htime, htime']
    exact h.on_stack v
  . simp only [htime']
    exact h.sorted
  . intro v hv
    rw [htime', hclock]
    exact h.lt_clock v hv
  . rw [hclock]
    exact h.clock_pos
  . intro v hv
    rw [htime] at hv
    rw [hlow v hv]
    exact h.low_undefined v hv
  . rw [hcomponent]
    exact h.linked
  . exact h.grouped

theorem Paths.congr (h : Paths edges s stack grays)
    (htime : s'.gcDiscoveryTime = s.gcDiscoveryTime) : Paths edges s' stack grays := by
  have htime' : ∀ v, time s' v = time s v := by
    intro v
    unfold time
    rw [htime]
  obtain ⟨hmem, hgray, hreach, hprocessed⟩ := h
  constructor
  . exact hmem
  . simp only [htime']
    exact hgray
  . simp only [htime']
    exact hreach
  . rw [htime]
    exact hprocessed

theorem Paths.push [DecidableEq Node] (h : Paths edges s stack grays)
    (hlinks : Links edges s stack groups) (hv : s.gcDiscoveryTime v = .undefined)
    (hreach : ∀ g ∈ grays, Reach edges g v)
    : Paths edges (discover v s) (v :: stack) (v :: grays) := by
  have hne : ∀ w ∈ stack, w ≠ v := by
    intro w hw heq
    rw [heq] at hw
    exact (hlinks.undefined.mp hv).1 hw
  have htime : ∀ w ∈ stack, time (discover v s) w = time s w := by
    intro w hw
    simp [time, discover, hne w hw]
  have htime_v : time (discover v s) v = s.clock := by simp [time, discover]
  constructor
  . intro g hg
    rw [mem_cons] at hg ⊢
    exact hg.imp_right (h.grays_mem g)
  . intro g hg w hw hle
    rw [mem_cons] at hg hw
    cases hw with
    | inl hw =>
      rw [hw]
      cases hg with
      | inl hg => rw [hg]; exact Reach.refl v
      | inr hg => exact hreach g hg
    | inr hw =>
      rw [htime w hw] at hle
      cases hg with
      | inl hg =>
        rw [hg, htime_v] at hle
        have := hlinks.lt_clock w hw
        omega
      | inr hg =>
        rw [htime g (h.grays_mem g hg)] at hle
        exact h.gray_reaches g hg w hw hle
  . intro w hw
    rw [mem_cons] at hw
    cases hw with
    | inl hw => exact ⟨v, by simp, by rw [hw], by rw [hw]; exact Reach.refl v⟩
    | inr hw =>
      obtain ⟨g, hg, hle, hpath⟩ := h.reaches_gray w hw
      refine ⟨g, by simp [hg], ?_, hpath⟩
      rw [htime w hw, htime g (h.grays_mem g hg)]
      exact hle
  . intro w hw hgray u hu
    rw [mem_cons, not_or] at hgray
    rw [mem_cons] at hw
    cases hw with
    | inl hw => exact absurd hw hgray.1
    | inr hw =>
      have := h.processed w hw hgray.2 u hu
      by_cases heq : u = v
      . rw [heq]
        simp [discover]
      . simpa [discover, heq] using this

end

section

variable {Node : Type} [DecidableEq Node] {edges : Node → List Node} {s : ComponentFinder Node}

@[simp]
theorem discover_stackFull (v : Node) (s : ComponentFinder Node)
    : (discover v s).stackFull = s.stackFull := rfl

theorem discover_time_self (v : Node) (s : ComponentFinder Node)
    : (discover v s).gcDiscoveryTime v = .time s.clock := by
  simp [discover]

theorem discover_time_of_ne (s : ComponentFinder Node) (h : u ≠ v)
    : (discover v s).gcDiscoveryTime u = s.gcDiscoveryTime u := by
  simp [discover, h]

theorem discover_low_of_ne (s : ComponentFinder Node) (h : u ≠ v)
    : (discover v s).gcLowLink u = s.gcLowLink u := by
  simp [discover, h]

theorem discover_known (h : s.gcDiscoveryTime u ≠ .undefined)
    : (discover v s).gcDiscoveryTime u ≠ .undefined := by
  by_cases heq : u = v
  . rw [heq, discover_time_self]
    simp
  . rw [discover_time_of_ne s heq]
    exact h

theorem lowerCur_eq (h : s.cur = some v) (low : Nat)
    : lowerCur low s = { s with gcLowLink := Function.update s.gcLowLink v (min (s.gcLowLink v) low) } := by
  unfold lowerCur
  rw [h]

structure Popped (s s' : ComponentFinder Node) (popped stack groups : List Node)
    (nextComponent : Option Node) : Prop where
  stack_list : IsList s'.gcNextGraphNode s'.stack stack
  groups_list : IsList s'.gcNextGraphNode s'.firstComponent (popped.reverse ++ groups)
  popped_time : ∀ u ∈ popped, s'.gcDiscoveryTime u = .finished
  popped_component : ∀ u ∈ popped, s'.gcNextGraphComponent u = nextComponent
  time_eq : ∀ u, u ∉ popped → s'.gcDiscoveryTime u = s.gcDiscoveryTime u
  component_eq : ∀ u, u ∉ popped → s'.gcNextGraphComponent u = s.gcNextGraphComponent u
  low_eq : s'.gcLowLink = s.gcLowLink
  clock_eq : s'.clock = s.clock
  cur_eq : s'.cur = s.cur
  stackFull_eq : s'.stackFull = s.stackFull

theorem finish_popped {stack groups : List Node}
    (hstack : IsList s.gcNextGraphNode s.stack (w :: stack))
    (hgroups : IsList s.gcNextGraphNode s.firstComponent groups) (hw_stack : w ∉ stack) (hw_groups : w ∉ groups)
    : Popped s (finish w nextComponent s) [w] stack groups nextComponent := by
  constructor
  . exact hstack.2.update_of_not_mem hw_stack _
  . exact hgroups.push hw_groups
  . intro u hu
    rw [mem_singleton] at hu
    simp [finish, hu]
  . intro u hu
    rw [mem_singleton] at hu
    simp [finish, hu]
  . intro u hu
    rw [mem_singleton] at hu
    simp [finish, hu]
  . intro u hu
    rw [mem_singleton] at hu
    simp [finish, hu]
  . rfl
  . rfl
  . rfl
  . rfl

theorem Popped.trans {popped popped' stack stack' groups : List Node}
    (h : Popped s s' popped stack groups nextComponent)
    (h' : Popped s' s'' popped' stack' (popped.reverse ++ groups) nextComponent)
    : Popped s s'' (popped ++ popped') stack' groups nextComponent := by
  constructor
  . exact h'.stack_list
  . rw [reverse_append, append_assoc]
    exact h'.groups_list
  . intro u hu
    by_cases hu' : u ∈ popped'
    . exact h'.popped_time u hu'
    . rw [h'.time_eq u hu']
      exact h.popped_time u ((mem_append.mp hu).resolve_right hu')
  . intro u hu
    by_cases hu' : u ∈ popped'
    . exact h'.popped_component u hu'
    . rw [h'.component_eq u hu']
      exact h.popped_component u ((mem_append.mp hu).resolve_right hu')
  . intro u hu
    rw [mem_append, not_or] at hu
    rw [h'.time_eq u hu.2, h.time_eq u hu.1]
  . intro u hu
    rw [mem_append, not_or] at hu
    rw [h'.component_eq u hu.2, h.component_eq u hu.1]
  . rw [h'.low_eq, h.low_eq]
  . rw [h'.clock_eq, h.clock_eq]
  . rw [h'.cur_eq, h.cur_eq]
  . rw [h'.stackFull_eq, h.stackFull_eq]

theorem popComponent_spec {above : List Node} {stack groups : List Node}
    (hstack : IsList s.gcNextGraphNode s.stack (above ++ v :: stack))
    (hgroups : IsList s.gcNextGraphNode s.firstComponent groups)
    (hnodup : (above ++ v :: stack ++ groups).Nodup) (hrounds : above.length < rounds)
    : ∃ s', popComponent v nextComponent rounds s = some s' ∧
      Popped s s' (above ++ [v]) stack groups nextComponent := by
  induction above generalizing s groups rounds with
  | nil =>
    obtain ⟨rounds, rfl⟩ : ∃ n, rounds = n + 1 := ⟨rounds - 1, by simp at hrounds; omega⟩
    rw [nil_append] at hstack hnodup
    rw [cons_append, nodup_cons, mem_append, not_or] at hnodup
    refine ⟨finish v nextComponent s, ?_, ?_⟩
    . unfold popComponent
      rw [hstack.1]
      simp
    . exact finish_popped hstack hgroups hnodup.1.1 hnodup.1.2
  | cons w above ih =>
    obtain ⟨rounds, rfl⟩ : ∃ n, rounds = n + 1 := ⟨rounds - 1, by simp at hrounds; omega⟩
    rw [cons_append] at hstack hnodup
    have hnodup' := hnodup
    rw [cons_append, nodup_cons, mem_append, not_or] at hnodup'
    obtain ⟨⟨hw_stack, hw_groups⟩, hrest⟩ := hnodup'
    have hfirst : Popped s (finish w nextComponent s) [w] (above ++ v :: stack) groups nextComponent :=
      finish_popped hstack hgroups hw_stack hw_groups
    have hne : w ≠ v := by
      intro heq
      rw [heq] at hw_stack
      simp at hw_stack
    have hperm : (above ++ v :: stack ++ ([w].reverse ++ groups)).Perm (w :: (above ++ v :: stack) ++ groups) := by
      simp only [reverse_singleton, cons_append, nil_append]
      exact perm_middle
    obtain ⟨s', hpop, hpopped⟩ := ih hfirst.stack_list hfirst.groups_list
      (hperm.nodup_iff.mpr hnodup) (show above.length < rounds by simpa using hrounds)
    refine ⟨s', ?_, hfirst.trans hpopped⟩
    unfold popComponent
    rw [hstack.1]
    dsimp only
    rw [if_pos hne]
    exact hpop

theorem linked_congr (h : Linked component groups) (heq : ∀ u ∈ groups.flatten, component' u = component u)
    : Linked component' groups := by
  induction groups with
  | nil => trivial
  | cons group groups ih =>
    refine ⟨h.1, ?_, ?_⟩
    . intro u hu
      rw [heq u (by simp [hu])]
      exact h.2.1 u hu
    apply ih h.2.2
    intro u hu
    apply heq
    rw [flatten_cons, mem_append]
    exact Or.inr hu

theorem Links.pop {popped stack : List Node}
    (h : Links edges s (popped ++ stack) groups) (hne : popped ≠ [])
    (hpopped : Popped s s' popped stack groups.flatten s.firstComponent) (hcomponent : IsComponent edges popped)
    (hclosed : ∀ u ∈ popped, ∀ w ∈ edges u, w ∈ popped ∨ w ∈ groups.flatten)
    : Links edges s' stack (popped.reverse :: groups) := by
  have hdisjoint : ∀ u ∈ stack, u ∉ popped :=
    fun u hu hu' => (nodup_append.mp h.stack_nodup).2.2 u hu' u hu rfl
  have htime : ∀ u ∈ stack, time s' u = time s u := by
    intro u hu
    unfold time
    rw [hpopped.time_eq u (hdisjoint u hu)]
  constructor
  . exact hpopped.stack_list
  . exact hpopped.groups_list
  . rw [flatten_cons]
    have hperm : (stack ++ (popped.reverse ++ groups.flatten)).Perm (popped ++ stack ++ groups.flatten) := by
      rw [← append_assoc]
      apply List.Perm.append_right
      exact perm_append_comm.trans ((reverse_perm popped).append_right stack)
    exact hperm.nodup_iff.mpr h.nodup
  . intro u
    rw [flatten_cons, mem_append, mem_reverse]
    by_cases hu : u ∈ popped
    . simp [hu, hpopped.popped_time u hu]
    . rw [hpopped.time_eq u hu, ← h.finished]
      simp [hu]
  . intro u
    by_cases hu : u ∈ popped
    . have : u ∉ stack := fun hu' => hdisjoint u hu' hu
      simp [this, hpopped.popped_time u hu]
    have hon := h.on_stack u
    rw [mem_append, or_iff_right hu] at hon
    unfold time at hon ⊢
    rw [hpopped.time_eq u hu]
    exact hon
  . apply (pairwise_append.mp h.sorted).2.1.imp_of_mem
    intro u w hu hw hlt
    rw [htime u hu, htime w hw]
    exact hlt
  . intro u hu
    rw [htime u hu, hpopped.clock_eq]
    exact h.lt_clock u (mem_append_right _ hu)
  . rw [hpopped.clock_eq]
    exact h.clock_pos
  . intro u hu
    by_cases hu' : u ∈ popped
    . rw [hpopped.popped_time u hu'] at hu
      cases hu
    rw [hpopped.time_eq u hu'] at hu
    rw [hpopped.low_eq]
    exact h.low_undefined u hu
  . refine ⟨by simpa using hne, ?_, ?_⟩
    . intro u hu
      rw [hpopped.popped_component u (by simpa using hu)]
      exact h.groups_list.head_eq
    apply linked_congr h.linked
    intro u hu
    apply hpopped.component_eq
    intro hu'
    exact h.not_finished (mem_append_left _ hu') hu
  . refine ⟨?_, ?_, h.grouped⟩
    . intro u hu w
      rw [mem_reverse] at hu ⊢
      exact hcomponent u hu w
    intro u hu w hw
    rw [mem_reverse] at hu ⊢
    exact hclosed u hu w hw

end

end SpiderMonkey.ComponentFinder
