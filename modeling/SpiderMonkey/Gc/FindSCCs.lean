import SpiderMonkey.Gc.Lemmas.FindSCCs
import SpiderMonkey.Lib.Run

/-!
This module contains the proof that the search for strongly connected components returns them in
topological order, and what it returns when the native stack overflows.
-/

namespace SpiderMonkey.ComponentFinder

open List Function
open PointerList

section

variable {Node : Type} (edges : Node → List Node)

-- What is known when the node `v` has been processed without a stack overflow: the nodes `above` are
-- left on the stack, and the low link of `v` bounds the edges from them into the stack below.
structure Visited (s s' : ComponentFinder Node) (v : Node) (above stack grays : List Node)
    : Prop where
  time_eq : ∀ u ∈ stack, s'.gcDiscoveryTime u = s.gcDiscoveryTime u
  low_eq : ∀ u ∈ stack, s'.gcLowLink u = s.gcLowLink u
  paths : Paths edges s' (above ++ stack) grays
  low_attained : s.clock ≤ s'.gcLowLink v ∨
    ∃ u ∈ stack, time s' u = s'.gcLowLink v ∧ Reach edges v u
  low_le : ∀ u ∈ above, ∀ w ∈ stack, w ∈ edges u → s'.gcLowLink v ≤ time s' w

structure Exploring (s s' : ComponentFinder Node) (v : Node) (above stack grays done : List Node)
    : Prop where
  time_eq : ∀ u ∈ v :: stack, s'.gcDiscoveryTime u = s.gcDiscoveryTime u
  low_eq : ∀ u ∈ stack, s'.gcLowLink u = s.gcLowLink u
  paths : Paths edges s' (above ++ v :: stack) (v :: grays)
  low_le_time : s'.gcLowLink v ≤ time s' v
  low_attained : ∃ u ∈ v :: stack, time s' u = s'.gcLowLink v ∧ Reach edges v u
  low_le : ∀ u ∈ above, ∀ w ∈ v :: stack, w ∈ edges u → s'.gcLowLink v ≤ time s' w
  done_le : ∀ w ∈ done, w ∈ v :: stack → s'.gcLowLink v ≤ time s' w

end

section

variable {Node : Type} [DecidableEq Node] {edges : Node → List Node}

variable {s s' : ComponentFinder Node}

omit [DecidableEq Node] in
theorem time_congr (h : s'.gcDiscoveryTime u = s.gcDiscoveryTime u) : time s' u = time s u := by
  unfold time
  rw [h]

variable {v : Node} {stack grays : List Node} {groups : List (List Node)}

theorem Exploring.start (hlinks : Links edges s stack groups)
    (hpaths : Paths edges s stack grays) (hv : s.gcDiscoveryTime v = .undefined) (hreach : ∀ g ∈ grays, Reach edges g v)
    : Exploring edges (discover v s) { discover v s with cur := some v } v [] stack grays [] := by
  constructor
  . intro u _
    rfl
  . intro u _
    rfl
  . exact (hpaths.push hlinks hv hreach).congr rfl
  . show (discover v s).gcLowLink v ≤ time (discover v s) v
    simp [time, discover]
  . refine ⟨v, by simp, ?_, Reach.refl v⟩
    simp [time, discover]
  . simp
  . simp

variable {above : List Node}

theorem Exploring.lower {done : List Node}
    (h : Exploring edges s s' v above stack grays done) (added : List Node)
    (hlinks : Links edges s'' (added ++ (above ++ v :: stack)) groups)
    (htime : ∀ u ∈ above ++ v :: stack, s''.gcDiscoveryTime u = s'.gcDiscoveryTime u)
    (hlow : ∀ u ∈ above ++ v :: stack, s''.gcLowLink u = s'.gcLowLink u)
    (hpaths : Paths edges s'' (added ++ (above ++ v :: stack)) (v :: grays))
    (hcur : s''.cur = some v) (hattained : time s'' v ≤ low ∨
      ∃ u ∈ above ++ v :: stack, time s'' u = low ∧ Reach edges v u)
    (hadded : ∀ u ∈ added, ∀ w ∈ above ++ v :: stack, w ∈ edges u → low ≤ time s'' w)
    (hw : w ∈ above ++ v :: stack → low ≤ time s'' w)
    : Exploring edges s (lowerCur low s'') v (added ++ above) stack grays (done ++ [w]) := by
  rw [lowerCur_eq hcur]
  have hv : v ∈ above ++ v :: stack := by simp
  have hstack : ∀ u ∈ v :: stack, u ∈ above ++ v :: stack :=
    fun u hu => mem_append_right _ hu
  have htime' : ∀ u ∈ v :: stack, time s'' u = time s' u :=
    fun u hu => time_congr (htime u (hstack u hu))
  have hnodup : v ∉ stack := by
    have := (nodup_append.mp (nodup_append.mp hlinks.stack_nodup).2.1).2.1
    exact (nodup_cons.mp this).1
  have hlow_self : ({ s'' with
      gcLowLink := Function.update s''.gcLowLink v (min (s''.gcLowLink v) low) }).gcLowLink v
      = min (s'.gcLowLink v) low := by
    rw [← hlow v hv]
    exact update_self _ _ _
  constructor
  . intro u hu
    rw [htime u (hstack u hu)]
    exact h.time_eq u hu
  . intro u hu
    have hne : u ≠ v := by
      intro heq
      rw [heq] at hu
      exact hnodup hu
    dsimp only
    rw [update_of_ne hne, hlow u (hstack u (by simp [hu]))]
    exact h.low_eq u hu
  . rw [append_assoc]
    exact hpaths.congr rfl
  . rw [hlow_self]
    show _ ≤ time s'' v
    rw [htime' v (by simp)]
    exact Nat.le_trans (Nat.min_le_left _ _) h.low_le_time
  . rw [hlow_self]
    rcases Nat.le_total (s'.gcLowLink v) low with hle | hle
    . rw [Nat.min_eq_left hle]
      obtain ⟨u, hu, heq, hreach⟩ := h.low_attained
      refine ⟨u, hu, ?_, hreach⟩
      show time s'' u = _
      rw [htime' u hu, heq]
    rw [Nat.min_eq_right hle]
    cases hattained with
    | inl hge =>
      refine ⟨v, by simp, ?_, Reach.refl v⟩
      show time s'' v = low
      have := h.low_le_time
      have := htime' v (by simp)
      omega
    | inr hattained =>
      obtain ⟨u, hu, heq, hreach⟩ := hattained
      refine ⟨u, ?_, heq, hreach⟩
      rw [mem_append] at hu
      cases hu with
      | inl hu =>
        have hsorted := (pairwise_append.mp (pairwise_append.mp hlinks.sorted).2.1).2.2
        have hlt := hsorted u hu v (by simp)
        have := h.low_le_time
        have := htime' v (by simp)
        omega
      | inr hu => exact hu
  . intro u hu x hx hedge
    rw [hlow_self]
    show _ ≤ time s'' x
    rw [mem_append] at hu
    cases hu with
    | inl hu => exact Nat.le_trans (Nat.min_le_right _ _) (hadded u hu x (hstack x hx) hedge)
    | inr hu =>
      rw [htime' x hx]
      exact Nat.le_trans (Nat.min_le_left _ _) (h.low_le u hu x hx hedge)
  . intro x hx hx_stack
    rw [hlow_self]
    show _ ≤ time s'' x
    rw [mem_append, mem_singleton] at hx
    cases hx with
    | inl hx =>
      rw [htime' x hx_stack]
      exact Nat.le_trans (Nat.min_le_left _ _) (h.done_le x hx hx_stack)
    | inr hx =>
      rw [hx] at hx_stack ⊢
      exact Nat.le_trans (Nat.min_le_right _ _) (hw (hstack w hx_stack))

omit [DecidableEq Node] in
theorem Exploring.setCur {done : List Node} (h : Exploring edges s s' v above stack grays done)
    (cur : Option Node) : Exploring edges s { s' with cur := cur } v above stack grays done := by
  obtain ⟨htime, hlow, hpaths, hle, hattained, hlow_le, hdone⟩ := h
  exact ⟨htime, hlow, hpaths.congr rfl, hle, hattained, hlow_le, hdone⟩

theorem Exploring.closed (h : Exploring edges s s' v above stack grays (edges v))
    (hlinks : Links edges s' (above ++ v :: stack) groups) (hgrays : ∀ g ∈ grays, g ∈ stack)
    (hknown : ∀ w ∈ edges v, s'.gcDiscoveryTime w ≠ .undefined) (hroot : s'.gcLowLink v = time s' v)
    : ∀ u ∈ above ++ [v], ∀ w ∈ edges u, w ∈ above ++ [v] ∨ w ∈ groups.flatten := by
  intro u hu w hw
  have hnodup := nodup_append.mp hlinks.stack_nodup
  have hw_known : s'.gcDiscoveryTime w ≠ .undefined := by
    rw [mem_append, mem_singleton] at hu
    cases hu with
    | inl hu =>
      apply h.paths.processed u (mem_append_left _ hu) _ w hw
      intro hgray
      rw [mem_cons] at hgray
      have hbelow : u ∈ v :: stack := by
        cases hgray with
        | inl hgray => simp [hgray]
        | inr hgray => simp [hgrays u hgray]
      exact hnodup.2.2 u hu u hbelow rfl
    | inr hu =>
      rw [hu] at hw
      exact hknown w hw
  rw [ne_eq, hlinks.undefined, not_and_or, not_not, not_not] at hw_known
  cases hw_known with
  | inr hw_groups => exact Or.inr hw_groups
  | inl hw_stack =>
    rw [append_cons, mem_append] at hw_stack
    cases hw_stack with
    | inl hw_above => exact Or.inl hw_above
    | inr hw_below =>
      have hlow : s'.gcLowLink v ≤ time s' w := by
        rw [mem_append, mem_singleton] at hu
        cases hu with
        | inl hu => exact h.low_le u hu w (by simp [hw_below]) hw
        | inr hu =>
          rw [hu] at hw
          exact h.done_le w hw (by simp [hw_below])
      have hsorted := (pairwise_append.mp hlinks.sorted).2.1
      rw [pairwise_cons] at hsorted
      have := hsorted.1 w hw_below
      omega

omit [DecidableEq Node] in
theorem Exploring.isComponent (h : Exploring edges s s' v above stack grays (edges v))
    (hlinks : Links edges s' (above ++ v :: stack) groups) (hgrays : ∀ g ∈ grays, g ∈ stack)
    (hclosed : ∀ u ∈ above ++ [v], ∀ w ∈ edges u, w ∈ above ++ [v] ∨ w ∈ groups.flatten)
    : IsComponent edges (above ++ [v]) := by
  have hsub : ∀ u ∈ above ++ [v], u ∈ above ++ v :: stack := by
    intro u hu
    rw [append_cons]
    exact mem_append_left _ hu
  have hstay : ∀ u ∈ above ++ [v], ∀ w, Reach edges u w → w ∈ above ++ [v] ∨ w ∈ groups.flatten := by
    intro u hu w hreach
    induction hreach with
    | refl => exact Or.inl hu
    | tail _ hedge ih =>
      cases ih with
      | inl ih => exact hclosed _ ih _ hedge
      | inr ih => exact Or.inr (hlinks.grouped.closed ih hedge)
  have hfrom_v : ∀ u ∈ above ++ [v], Reach edges v u := by
    intro u hu
    apply h.paths.gray_reaches v (by simp) u (hsub u hu)
    rw [mem_append, mem_singleton] at hu
    cases hu with
    | inl hu =>
      have hsorted := (pairwise_append.mp hlinks.sorted).2.2
      exact Nat.le_of_lt (hsorted u hu v (by simp))
    | inr hu => rw [hu]
  have hto_v : ∀ u ∈ above ++ [v], Reach edges u v := by
    intro u hu
    obtain ⟨g, hg, _, hreach⟩ := h.paths.reaches_gray u (hsub u hu)
    rw [mem_cons] at hg
    cases hg with
    | inl hg =>
      rw [hg] at hreach
      exact hreach
    | inr hg =>
      have hg_stack := hgrays g hg
      have hnodup := hlinks.stack_nodup
      rw [append_cons, nodup_append] at hnodup
      cases hstay u hu g hreach with
      | inl hg_above => exact absurd rfl (hnodup.2.2 g hg_above g hg_stack)
      | inr hg_groups => exact absurd hg_groups (hlinks.not_finished (by simp [hg_stack]))
  intro u hu w
  constructor
  . intro hw
    exact ⟨(hto_v u hu).trans (hfrom_v w hw), (hto_v w hw).trans (hfrom_v u hu)⟩
  intro hboth
  cases hstay u hu w hboth.1 with
  | inl hw => exact hw
  | inr hw =>
    exact absurd (hlinks.grouped.reach_closed hw hboth.2) (hlinks.not_finished (hsub u hu))

theorem Exploring.pop (h : Exploring edges (discover v s) s' v above stack grays (edges v))
    (hlinks : Links edges s' (above ++ v :: stack) groups') (hgrays : ∀ g ∈ grays, g ∈ stack)
    (hroot : s'.gcLowLink v = time s' v)
    (hpopped : Popped s' s'' (above ++ [v]) stack groups'.flatten s'.firstComponent)
    : Visited edges s s'' v [] stack grays := by
  have hnodup := hlinks.stack_nodup
  rw [append_cons, nodup_append] at hnodup
  have hnot : ∀ u ∈ stack, u ∉ above ++ [v] := fun u hu hu' => hnodup.2.2 u hu' u hu rfl
  have hne : ∀ u ∈ stack, u ≠ v := by
    intro u hu heq
    exact hnot u hu (by simp [heq])
  have htime : ∀ u ∈ stack, s''.gcDiscoveryTime u = s'.gcDiscoveryTime u :=
    fun u hu => hpopped.time_eq u (hnot u hu)
  have hsub : ∀ u ∈ stack, u ∈ above ++ v :: stack := fun u hu => by simp [hu]
  have hsorted := (pairwise_append.mp hlinks.sorted).2.1
  rw [pairwise_cons] at hsorted
  constructor
  . intro u hu
    rw [htime u hu, h.time_eq u (by simp [hu]), discover_time_of_ne s (hne u hu)]
  . intro u hu
    rw [hpopped.low_eq, h.low_eq u hu, discover_low_of_ne s (hne u hu)]
  . rw [nil_append]
    constructor
    . exact hgrays
    . intro g hg u hu hle
      rw [time_congr (htime g (hgrays g hg)), time_congr (htime u hu)] at hle
      exact h.paths.gray_reaches g (by simp [hg]) u (hsub u hu) hle
    . intro u hu
      obtain ⟨g, hg, hle, hreach⟩ := h.paths.reaches_gray u (hsub u hu)
      rw [mem_cons] at hg
      cases hg with
      | inl hg =>
        rw [hg] at hle
        have := hsorted.1 u hu
        omega
      | inr hg =>
        refine ⟨g, hg, ?_, hreach⟩
        rw [time_congr (htime g (hgrays g hg)), time_congr (htime u hu)]
        exact hle
    . intro u hu hgray w hw
      have hknown := h.paths.processed u (hsub u hu) (by simp [hne u hu, hgray]) w hw
      by_cases hw' : w ∈ above ++ [v]
      . rw [hpopped.popped_time w hw']
        simp
      . rw [hpopped.time_eq w hw']
        exact hknown
  . left
    rw [hpopped.low_eq, hroot, time_congr (h.time_eq v (by simp))]
    simp [time, discover]
  . simp

theorem Exploring.keep (hlinks : Links edges s stack groups) (hv : s.gcDiscoveryTime v = .undefined)
    (h : Exploring edges (discover v s) s' v above stack grays (edges v))
    (hgrays : ∀ g ∈ grays, g ∈ stack) (hknown : ∀ w ∈ edges v, s'.gcDiscoveryTime w ≠ .undefined)
    (hroot : s'.gcLowLink v ≠ time s' v)
    : Visited edges s s' v (above ++ [v]) stack grays := by
  have hne : ∀ u ∈ stack, u ≠ v := by
    intro u hu heq
    rw [heq] at hu
    exact (hlinks.undefined.mp hv).1 hu
  have hlow := h.low_le_time
  obtain ⟨older, holder, htime_older, hreach_older⟩ := h.low_attained
  have holder_stack : older ∈ stack := by
    rw [mem_cons] at holder
    cases holder with
    | inl heq =>
      rw [heq] at htime_older
      exact absurd htime_older.symm hroot
    | inr holder => exact holder
  constructor
  . intro u hu
    rw [h.time_eq u (by simp [hu]), discover_time_of_ne s (hne u hu)]
  . intro u hu
    rw [h.low_eq u hu, discover_low_of_ne s (hne u hu)]
  . rw [← append_cons]
    constructor
    . intro g hg
      simp [hgrays g hg]
    . intro g hg
      exact h.paths.gray_reaches g (by simp [hg])
    . intro u hu
      obtain ⟨g, hg, hle, hreach⟩ := h.paths.reaches_gray u hu
      rw [mem_cons] at hg
      cases hg with
      | inl hg =>
        rw [hg] at hle hreach
        obtain ⟨g', hg', hle', hreach'⟩ := h.paths.reaches_gray older (by simp [holder_stack])
        rw [mem_cons] at hg'
        cases hg' with
        | inl hg' =>
          rw [hg'] at hle'
          omega
        | inr hg' =>
          exact ⟨g', hg', by omega, (hreach.trans hreach_older).trans hreach'⟩
      | inr hg => exact ⟨g, hg, hle, hreach⟩
    . intro u hu hgray w hw
      by_cases heq : u = v
      . rw [heq] at hw
        exact hknown w hw
      . exact h.paths.processed u hu (by simp [heq, hgray]) w hw
  . right
    exact ⟨older, holder_stack, htime_older, hreach_older⟩
  . intro u hu w hw hedge
    rw [mem_append, mem_singleton] at hu
    cases hu with
    | inl hu => exact h.low_le u hu w (by simp [hw]) hedge
    | inr hu =>
      rw [hu] at hedge
      exact h.done_le w hedge (by simp [hw])

end

section

variable {Node : Type} [DecidableEq Node]

structure Kept (s s' : ComponentFinder Node) : Prop where
  known : ∀ u, s.gcDiscoveryTime u ≠ .undefined → s'.gcDiscoveryTime u ≠ .undefined
  full : s.stackFull = true → s'.stackFull = true
  clock_le : s.clock ≤ s'.clock

variable {s s' : ComponentFinder Node}

omit [DecidableEq Node] in
theorem Kept.trans (h : Kept s s') (h' : Kept s' s'')
    : Kept s s'' :=
  ⟨fun u hu => h'.known u (h.known u hu), fun hfull => h'.full (h.full hfull), Nat.le_trans h.clock_le h'.clock_le⟩

omit [DecidableEq Node] in
theorem Kept.not_full (h : Kept s s') (hfull : s'.stackFull = false)
    : s.stackFull = false := by
  rw [← Bool.not_eq_true] at hfull ⊢
  exact fun hfull' => hfull (h.full hfull')

theorem lowerCur_kept (h : Kept s s') (low : Nat)
    : Kept s (lowerCur low s') := by
  unfold lowerCur
  split
  . exact ⟨h.known, h.full, h.clock_le⟩
  . exact h

theorem lowerCur_cur (s : ComponentFinder Node) (low : Nat) : (lowerCur low s).cur = s.cur := by
  unfold lowerCur
  split
  . rfl
  . rfl

theorem lowerCur_stackFull (s : ComponentFinder Node) (low : Nat)
    : (lowerCur low s).stackFull = s.stackFull := by
  unfold lowerCur
  split
  . rfl
  . rfl

theorem lowerCur_time (s : ComponentFinder Node) (low : Nat)
    : (lowerCur low s).gcDiscoveryTime = s.gcDiscoveryTime := by
  unfold lowerCur
  split
  . rfl
  . rfl

variable {stack : List Node} {groups : List (List Node)} {v : Node}

theorem Links.lowerCur {edges : Node → List Node}
    (h : Links edges s stack groups) (hcur : s.cur = some v) (hv : s.gcDiscoveryTime v ≠ .undefined) (low : Nat)
    : Links edges (lowerCur low s) stack groups := by
  have hlow : ∀ u, s.gcDiscoveryTime u = .undefined
      → Function.update s.gcLowLink v (min (s.gcLowLink v) low) u = s.gcLowLink u := by
    intro u hu
    apply update_of_ne
    intro heq
    rw [heq] at hu
    exact hv hu
  rw [lowerCur_eq hcur]
  exact h.congr rfl rfl rfl hlow rfl rfl rfl

variable [Fintype Node]

def undefinedCount (s : ComponentFinder Node) : Nat :=
  (Finset.univ.filter (fun v => s.gcDiscoveryTime v = .undefined)).card

omit [DecidableEq Node] in
theorem Kept.undefinedCount_le (h : Kept s s')
    : undefinedCount s' ≤ undefinedCount s := by
  apply Finset.card_le_card
  intro v hv
  rw [Finset.mem_filter] at hv ⊢
  refine ⟨hv.1, ?_⟩
  by_contra hknown
  exact h.known v hknown hv.2

theorem undefinedCount_discover (hv : s.gcDiscoveryTime v = .undefined)
    : undefinedCount (discover v s) < undefinedCount s := by
  apply Finset.card_lt_card
  rw [Finset.ssubset_iff_of_subset]
  . refine ⟨v, by simpa using hv, ?_⟩
    rw [Finset.mem_filter, discover_time_self]
    simp
  intro u hu
  rw [Finset.mem_filter] at hu ⊢
  refine ⟨hu.1, ?_⟩
  by_contra hknown
  exact discover_known hknown hu.2

variable (edges : Node → List Node) (checkStackSize : Nat → Bool)

-- What `processNode` returns, whether or not the native stack overflows.
structure Processed (s s' : ComponentFinder Node) (v : Node) (stack grays : List Node) : Prop where
  kept : Kept s s'
  known : s'.gcDiscoveryTime v ≠ .undefined
  cur_eq : s'.cur = s.cur
  links : ∃ stack' groups', Links edges s' stack' groups' ∧
    (s'.stackFull = false → ∃ above, stack' = above ++ stack ∧ Visited edges s s' v above stack grays)
  no_overflow : (∀ n, checkStackSize n = true) → s.stackFull = false → s'.stackFull = false

structure Following (s s' : ComponentFinder Node) (v : Node) (stack grays done : List Node)
    : Prop where
  kept : Kept s s'
  known : ∀ w ∈ done, s'.gcDiscoveryTime w ≠ .undefined
  cur_eq : s'.cur = some v
  links : ∃ stack' groups', Links edges s' stack' groups' ∧
    (s'.stackFull = false → ∃ above, stack' = above ++ v :: stack ∧ Exploring edges s s' v above stack grays done)
  no_overflow : (∀ n, checkStackSize n = true) → s.stackFull = false → s'.stackFull = false

def Processes (process : Node → ComponentFinder Node → Option (ComponentFinder Node))
    (rounds : Nat) : Prop :=
  ∀ (v : Node) (s : ComponentFinder Node) (stack : List Node) (groups : List (List Node))
    (grays : List Node), Links edges s stack groups
    → (s.stackFull = false → Paths edges s stack grays)
    → (s.stackFull = false → ∀ g ∈ grays, Reach edges g v) → s.gcDiscoveryTime v = .undefined
    → undefinedCount s ≤ rounds
    → ∃ s', process v s = some s' ∧ Processed edges checkStackSize s s' v stack grays

variable {edges} {checkStackSize}

variable {grays : List Node}

theorem addEdgeTo_spec (hprocess : Processes edges checkStackSize process rounds) {done : List Node}
    (h : Following edges checkStackSize s s' v stack grays done) (hedge : w ∈ edges v)
    (hv : s.gcDiscoveryTime v ≠ .undefined) (hrounds : undefinedCount s ≤ rounds)
    (hgrays : s.stackFull = false → ∀ g ∈ grays, g ∈ stack)
    : ∃ s'', addEdgeTo process s' w = some s'' ∧ Following edges checkStackSize s s'' v stack grays (done ++ [w]) := by
  obtain ⟨stack', groups', hlinks, hexploring⟩ := h.links
  have hv' := h.kept.known v hv
  unfold addEdgeTo
  cases hw : s'.gcDiscoveryTime w with
  | undefined =>
    have hpaths : s'.stackFull = false → Paths edges s' stack' (v :: grays) := by
      intro hfull
      obtain ⟨above, rfl, hexploring'⟩ := hexploring hfull
      exact hexploring'.paths
    have hreach : s'.stackFull = false → ∀ g ∈ v :: grays, Reach edges g w := by
      intro hfull g hg
      obtain ⟨above, rfl, hexploring'⟩ := hexploring hfull
      apply Reach.trans _ (Reach.edge hedge)
      rw [mem_cons] at hg
      cases hg with
      | inl hg =>
        rw [hg]
        exact Reach.refl v
      | inr hg =>
        apply hexploring'.paths.gray_reaches g (by simp [hg]) v (by simp)
        have hsorted := (pairwise_append.mp hlinks.sorted).2.1
        rw [pairwise_cons] at hsorted
        exact Nat.le_of_lt (hsorted.1 g (hgrays (h.kept.not_full hfull) g hg))
    obtain ⟨s'', hrun, hprocessed⟩ := hprocess w s' stack' groups' (v :: grays) hlinks hpaths hreach
      hw (Nat.le_trans h.kept.undefinedCount_le hrounds)
    refine ⟨lowerCur (s''.gcLowLink w) s'', by rw [hrun]; rfl, ?_⟩
    obtain ⟨stack'', groups'', hlinks'', hvisited⟩ := hprocessed.links
    have hcur : s''.cur = some v := by rw [hprocessed.cur_eq, h.cur_eq]
    constructor
    . exact lowerCur_kept (h.kept.trans hprocessed.kept) _
    . intro u hu
      rw [lowerCur_time]
      rw [mem_append, mem_singleton] at hu
      cases hu with
      | inl hu => exact hprocessed.kept.known u (h.known u hu)
      | inr hu =>
        rw [hu]
        exact hprocessed.known
    . rw [lowerCur_cur]
      exact hcur
    . refine ⟨stack'', groups'', hlinks''.lowerCur hcur (hprocessed.kept.known v hv') _, ?_⟩
      intro hfull
      rw [lowerCur_stackFull] at hfull
      obtain ⟨above, rfl, hexploring'⟩ := hexploring (hprocessed.kept.not_full hfull)
      obtain ⟨added, rfl, hvisited'⟩ := hvisited hfull
      refine ⟨added ++ above, by rw [append_assoc], ?_⟩
      apply hexploring'.lower added hlinks'' hvisited'.time_eq hvisited'.low_eq hvisited'.paths hcur
      . cases hvisited'.low_attained with
        | inl hfresh =>
          left
          have := hlinks.lt_clock v (by simp)
          have := time_congr (hvisited'.time_eq v (by simp))
          omega
        | inr hattained =>
          right
          obtain ⟨u, hu, htime, hreach⟩ := hattained
          exact ⟨u, hu, htime, (Reach.edge hedge).trans hreach⟩
      . exact hvisited'.low_le
      . intro hmem
        exact absurd hw (by rw [(hlinks.on_stack w).mp hmem]; simp)
    . intro hcheck hfull
      rw [lowerCur_stackFull]
      exact hprocessed.no_overflow hcheck (h.no_overflow hcheck hfull)
  | finished =>
    refine ⟨s', rfl, h.kept, ?_, h.cur_eq, ⟨stack', groups', hlinks, ?_⟩, h.no_overflow⟩
    . intro u hu
      rw [mem_append, mem_singleton] at hu
      cases hu with
      | inl hu => exact h.known u hu
      | inr hu =>
        rw [hu, hw]
        simp
    intro hfull
    obtain ⟨above, rfl, hexploring'⟩ := hexploring hfull
    refine ⟨above, rfl, { hexploring' with done_le := ?_ }⟩
    intro u hu hu_stack
    rw [mem_append, mem_singleton] at hu
    cases hu with
    | inl hu => exact hexploring'.done_le u hu hu_stack
    | inr hu =>
      rw [hu] at hu_stack
      have := (hlinks.on_stack w).mp (mem_append_right _ hu_stack)
      rw [hw] at this
      cases this
  | time clock =>
    have hclock : time s' w = clock := by simp [time, hw]
    have hw_stack : w ∈ stack' := by
      rw [hlinks.on_stack, hclock]
      exact hw
    refine ⟨lowerCur clock s', rfl, lowerCur_kept h.kept _, ?_, ?_, ?_, ?_⟩
    . intro u hu
      rw [lowerCur_time]
      rw [mem_append, mem_singleton] at hu
      cases hu with
      | inl hu => exact h.known u hu
      | inr hu =>
        rw [hu, hw]
        simp
    . rw [lowerCur_cur]
      exact h.cur_eq
    . refine ⟨stack', groups', hlinks.lowerCur h.cur_eq hv' _, ?_⟩
      intro hfull
      rw [lowerCur_stackFull] at hfull
      obtain ⟨above, rfl, hexploring'⟩ := hexploring hfull
      refine ⟨above, rfl, ?_⟩
      apply hexploring'.lower [] hlinks (fun _ _ => rfl) (fun _ _ => rfl) hexploring'.paths h.cur_eq
      . right
        exact ⟨w, hw_stack, hclock, Reach.edge hedge⟩
      . simp
      . intro _
        rw [hclock]
    . intro hcheck hfull
      rw [lowerCur_stackFull]
      exact h.no_overflow hcheck hfull

theorem foldlM_addEdgeTo_spec (hprocess : Processes edges checkStackSize process rounds) {done rest : List Node}
    (h : Following edges checkStackSize s s' v stack grays done) (hrest : ∀ w ∈ rest, w ∈ edges v)
    (hv : s.gcDiscoveryTime v ≠ .undefined) (hrounds : undefinedCount s ≤ rounds)
    (hgrays : s.stackFull = false → ∀ g ∈ grays, g ∈ stack)
    : ∃ s'', rest.foldlM (addEdgeTo process) s' = some s'' ∧
      Following edges checkStackSize s s'' v stack grays (done ++ rest) := by
  induction rest generalizing s' done with
  | nil =>
    rw [append_nil]
    exact ⟨s', rfl, h⟩
  | cons w rest ih =>
    obtain ⟨s'', hstep, h''⟩ := addEdgeTo_spec hprocess h (hrest w (by simp)) hv hrounds hgrays
    obtain ⟨u3, hrun, h3⟩ := ih h'' (fun u hu => hrest u (by simp [hu]))
    rw [← append_cons] at h3
    exact ⟨u3, by rw [foldlM_cons, hstep]; exact hrun, h3⟩

omit [Fintype Node] in
theorem discover_kept (v : Node) (s : ComponentFinder Node) : Kept s (discover v s) := by
  constructor
  . intro u hu
    exact discover_known hu
  . exact id
  . exact Nat.le_succ _

theorem Following.processed_full (h : Following edges checkStackSize (discover v s) s' v stack grays (edges v))
    (hfull : s'.stackFull = true)
    : Processed edges checkStackSize s { s' with cur := s.cur } v stack grays := by
  have hkept := (discover_kept v s).trans h.kept
  obtain ⟨stack', groups', hlinks, _⟩ := h.links
  constructor
  . exact ⟨hkept.known, hkept.full, hkept.clock_le⟩
  . apply h.kept.known v
    rw [discover_time_self]
    simp
  . rfl
  . refine ⟨stack', groups', hlinks.congr rfl rfl rfl (fun _ _ => rfl) rfl rfl rfl, ?_⟩
    intro hnot
    rw [hfull] at hnot
    cases hnot
  . exact h.no_overflow

theorem Following.processed_pop (h : Following edges checkStackSize (discover v s) s' v stack grays (edges v))
    (hgrays : ∀ g ∈ grays, g ∈ stack) (hfull : s'.stackFull = false)
    (hroot : .time (s'.gcLowLink v) = s'.gcDiscoveryTime v)
    : ∃ s'', popComponent v s'.firstComponent (Fintype.card Node) { s' with cur := s.cur } = some s'' ∧
      Processed edges checkStackSize s s'' v stack grays := by
  have hkept := (discover_kept v s).trans h.kept
  obtain ⟨stack', groups', hlinks, hexploring⟩ := h.links
  obtain ⟨above, rfl, hexploring'⟩ := hexploring hfull
  rw [(hlinks.on_stack v).mp (by simp), DiscoveryTime.time.injEq] at hroot
  have hclosed := hexploring'.closed hlinks hgrays h.known hroot
  have hcomponent := hexploring'.isComponent hlinks hgrays hclosed
  have hlinks' : Links edges { s' with cur := s.cur } (above ++ v :: stack) groups' :=
    hlinks.congr rfl rfl rfl (fun _ _ => rfl) rfl rfl rfl
  have hlength : above.length < Fintype.card Node := by
    have := hlinks.stack_nodup.length_le_card
    rw [length_append, length_cons] at this
    omega
  obtain ⟨s'', hpop, hpopped⟩ := popComponent_spec hlinks'.stack_list hlinks'.groups_list hlinks'.nodup hlength
  refine ⟨s'', hpop, ?_⟩
  have hvisited := (hexploring'.setCur s.cur).pop hlinks' hgrays hroot hpopped
  rw [append_cons] at hlinks'
  have hlinks'' := hlinks'.pop (by simp) hpopped hcomponent hclosed
  constructor
  . constructor
    . intro u hu
      by_cases hu' : u ∈ above ++ [v]
      . rw [hpopped.popped_time u hu']
        simp
      . rw [hpopped.time_eq u hu']
        exact hkept.known u hu
    . intro hfull'
      rw [hpopped.stackFull_eq]
      exact hkept.full hfull'
    . rw [hpopped.clock_eq]
      exact hkept.clock_le
  . rw [hpopped.popped_time v (by simp)]
    simp
  . exact hpopped.cur_eq
  . refine ⟨_, _, hlinks'', ?_⟩
    intro _
    exact ⟨[], rfl, hvisited⟩
  . intro _ _
    rw [hpopped.stackFull_eq]
    exact hfull

theorem Following.processed_keep (hlinks : Links edges s stack groups) (hv : s.gcDiscoveryTime v = .undefined)
    (h : Following edges checkStackSize (discover v s) s' v stack grays (edges v))
    (hgrays : ∀ g ∈ grays, g ∈ stack) (hfull : s'.stackFull = false)
    (hroot : .time (s'.gcLowLink v) ≠ s'.gcDiscoveryTime v)
    : Processed edges checkStackSize s { s' with cur := s.cur } v stack grays := by
  have hkept := (discover_kept v s).trans h.kept
  obtain ⟨stack', groups', hlinks', hexploring⟩ := h.links
  obtain ⟨above, rfl, hexploring'⟩ := hexploring hfull
  have htime := (hlinks'.on_stack v).mp (by simp)
  rw [htime, ne_eq, DiscoveryTime.time.injEq] at hroot
  constructor
  . exact ⟨hkept.known, hkept.full, hkept.clock_le⟩
  . show s'.gcDiscoveryTime v ≠ .undefined
    rw [htime]
    simp
  . rfl
  . have hlinks'' : Links edges { s' with cur := s.cur } (above ++ v :: stack) groups' :=
      hlinks'.congr rfl rfl rfl (fun _ _ => rfl) rfl rfl rfl
    refine ⟨_, groups', hlinks'', ?_⟩
    intro _
    exact ⟨above ++ [v], by simp, (hexploring'.setCur s.cur).keep hlinks hv hgrays h.known hroot⟩
  . intro _ _
    exact hfull

theorem processNode_spec (rounds : Nat)
    : Processes edges checkStackSize (processNode edges checkStackSize rounds) rounds := by
  induction rounds with
  | zero =>
    intro v s stack groups grays hlinks hpaths hreach hv hrounds
    have := undefinedCount_discover hv
    omega
  | succ rounds ih =>
    intro v s stack groups grays hlinks hpaths hreach hv hrounds
    have hdiscover := hlinks.push hv
    have hcount := undefinedCount_discover hv
    have hv_known : (discover v s).gcDiscoveryTime v ≠ .undefined := by
      rw [discover_time_self]
      simp
    have hgrays : s.stackFull = false → ∀ g ∈ grays, g ∈ stack :=
      fun hfull => (hpaths hfull).grays_mem
    unfold processNode
    dsimp only
    split
    . next hoverflow =>
      have hkept := discover_kept v s
      refine ⟨_, rfl, ⟨hkept.known, fun _ => rfl, hkept.clock_le⟩, hv_known, rfl, ?_, ?_⟩
      . refine ⟨v :: stack, groups, hdiscover.congr rfl rfl rfl (fun _ _ => rfl) rfl rfl rfl, ?_⟩
        intro hfull
        cases hfull
      intro hcheck hfull
      rw [discover_stackFull, hfull, hcheck] at hoverflow
      cases hoverflow
    next hok =>
    have hstart : Following edges checkStackSize (discover v s)
        { discover v s with cur := some v } v stack grays [] := by
      constructor
      . exact ⟨fun u hu => hu, id, Nat.le_refl _⟩
      . simp
      . rfl
      . refine ⟨v :: stack, groups, hdiscover.congr rfl rfl rfl (fun _ _ => rfl) rfl rfl rfl, ?_⟩
        intro hfull
        exact ⟨[], rfl, Exploring.start hlinks (hpaths hfull) hv (hreach hfull)⟩
      . intro _ hfull
        exact hfull
    obtain ⟨s', hrun, hfollowing⟩ := foldlM_addEdgeTo_spec ih hstart (fun w hw => hw) hv_known (by omega) hgrays
    rw [hrun]
    dsimp only
    split
    . next hfull => exact ⟨_, rfl, hfollowing.processed_full hfull⟩
    next hfull =>
    rw [Bool.not_eq_true] at hfull
    have hgrays' := hgrays (((discover_kept v s).trans hfollowing.kept).not_full hfull)
    split
    . next hroot => exact hfollowing.processed_pop hgrays' hfull hroot
    . next hroot => exact ⟨_, rfl, hfollowing.processed_keep hlinks hv hgrays' hfull hroot⟩

structure Between (edges : Node → List Node) (s : ComponentFinder Node) : Prop where
  links : ∃ stack groups, Links edges s stack groups ∧ (s.stackFull = false → stack = [])

-- What holds before the first call: no node was discovered, and what `gcNextGraphNode` and
-- `gcNextGraphComponent` hold does not matter.
structure Ready (s : ComponentFinder Node) : Prop where
  undiscovered : ∀ v, s.gcDiscoveryTime v = .undefined ∧ s.gcLowLink v = 0
  clock_pos : 0 < s.clock
  stack_eq : s.stack = none
  firstComponent_eq : s.firstComponent = none
  stackFull_eq : s.stackFull = false

omit [DecidableEq Node] [Fintype Node] in
theorem Ready.between (h : Ready s) : Between edges s := by
  refine ⟨[], [], ?_, fun _ => rfl⟩
  constructor
  . exact h.stack_eq
  . exact h.firstComponent_eq
  . exact nodup_nil
  . intro v
    simp [(h.undiscovered v).1]
  . intro v
    simp [(h.undiscovered v).1]
  . exact List.Pairwise.nil
  . simp
  . exact h.clock_pos
  . intro v _
    exact (h.undiscovered v).2
  . trivial
  . trivial

omit [DecidableEq Node] [Fintype Node] in
theorem Paths.nil (s : ComponentFinder Node) : Paths edges s [] [] := by
  constructor
  . simp
  . simp
  . simp
  . simp

omit [DecidableEq Node] in
theorem undefinedCount_le (s : ComponentFinder Node) : undefinedCount s ≤ Fintype.card Node :=
  Finset.card_le_univ _

omit [DecidableEq Node] [Fintype Node] in
theorem Paths.stack_nil (h : Paths edges s stack []) : stack = [] := by
  rw [eq_nil_iff_forall_not_mem]
  intro v hv
  obtain ⟨g, hg, _⟩ := h.reaches_gray v hv
  cases hg

theorem addNode_spec (h : Between edges s) (v : Node)
    : ∃ s', addNode edges checkStackSize v s = some s' ∧ Between edges s' ∧ Kept s s' ∧
      s'.gcDiscoveryTime v ≠ .undefined ∧
      ((∀ n, checkStackSize n = true) → s.stackFull = false → s'.stackFull = false) := by
  obtain ⟨stack, groups, hlinks, hempty⟩ := h.links
  unfold addNode
  split
  . next hv =>
    have hpaths : s.stackFull = false → Paths edges s stack [] := by
      intro hfull
      rw [hempty hfull]
      exact Paths.nil s
    obtain ⟨s', hrun, hprocessed⟩ := processNode_spec (Fintype.card Node) v s stack groups []
      hlinks hpaths (by simp) hv (undefinedCount_le s)
    obtain ⟨stack', groups', hlinks', hvisited⟩ := hprocessed.links
    refine ⟨s', hrun, ⟨stack', groups', hlinks', ?_⟩, hprocessed.kept, hprocessed.known, hprocessed.no_overflow⟩
    intro hfull
    obtain ⟨above, rfl, hvisited'⟩ := hvisited hfull
    exact hvisited'.paths.stack_nil
  . next hv =>
    exact ⟨s, rfl, h, ⟨fun _ hu => hu, id, Nat.le_refl _⟩, hv, fun _ hfull => hfull⟩

omit [DecidableEq Node] [Fintype Node] in
theorem useOneComponent_between (h : Between edges s)
    : Between edges (useOneComponent s) := by
  obtain ⟨stack, groups, hlinks, _⟩ := h.links
  refine ⟨stack, groups, hlinks.congr rfl rfl rfl (fun _ _ => rfl) rfl rfl rfl, ?_⟩
  intro hfull
  cases hfull

theorem calls_spec (checkStackSize : Nat → Bool) (h : Between edges s) (calls : List (Call Node))
    : ∃ s', calls.foldlM (call edges checkStackSize) s = some s' ∧ Between edges s' ∧ Kept s s' ∧
      (∀ v, .addNode v ∈ calls → s'.gcDiscoveryTime v ≠ .undefined) ∧
      ((∀ n, checkStackSize n = true) → .useOneComponent ∉ calls → s.stackFull = false → s'.stackFull = false) := by
  induction calls generalizing s with
  | nil =>
    exact ⟨s, rfl, h, ⟨fun _ hu => hu, id, Nat.le_refl _⟩, by simp, fun _ _ hfull => hfull⟩
  | cons c calls ih =>
    rw [foldlM_cons]
    cases c with
    | addNode v =>
      obtain ⟨s', hadd, hbetween, hkept, hv, hno_overflow⟩ := addNode_spec h v
      obtain ⟨s'', hrun, hbetween', hkept', hknown, hno_overflow'⟩ := ih hbetween
      refine ⟨s'', ?_, hbetween', hkept.trans hkept', ?_, ?_⟩
      . unfold call
        dsimp only
        rw [hadd]
        exact hrun
      . intro u hu
        rw [mem_cons, Call.addNode.injEq] at hu
        cases hu with
        | inl hu =>
          rw [hu]
          exact hkept'.known v hv
        | inr hu => exact hknown u hu
      . intro hcheck hnot hfull
        rw [mem_cons, not_or] at hnot
        exact hno_overflow' hcheck hnot.2 (hno_overflow hcheck hfull)
    | useOneComponent =>
      obtain ⟨s'', hrun, hbetween', hkept', hknown, _⟩ := ih (useOneComponent_between h)
      refine ⟨s'', hrun, hbetween', ?_, ?_, ?_⟩
      . exact ⟨hkept'.known, fun _ => hkept'.full rfl, hkept'.clock_le⟩
      . intro u hu
        rw [mem_cons] at hu
        cases hu with
        | inl hu => cases hu
        | inr hu => exact hknown u hu
      . intro _ hnot
        exact absurd mem_cons_self hnot

omit [Fintype Node] in
theorem popAll_spec (firstGoodComponent : Option Node)
    {nodes : List Node} (hstack : IsList s.gcNextGraphNode s.stack stack)
    (hnodes : IsList s.gcNextGraphNode s.firstComponent nodes) (hnodup : (stack ++ nodes).Nodup)
    (hrounds : stack.length ≤ rounds)
    : ∃ s', popAll firstGoodComponent rounds s = some s' ∧ s'.stack = none ∧
      IsList s'.gcNextGraphNode s'.firstComponent (stack.reverse ++ nodes) ∧
      (∀ u ∈ stack, s'.gcNextGraphComponent u = firstGoodComponent) ∧
      (∀ u, u ∉ stack → s'.gcNextGraphComponent u = s.gcNextGraphComponent u) ∧
      s'.gcDiscoveryTime = s.gcDiscoveryTime ∧ s'.gcLowLink = s.gcLowLink ∧ s'.clock = s.clock := by
  induction stack generalizing s nodes rounds with
  | nil =>
    refine ⟨s, ?_, hstack, hnodes, by simp, fun _ _ => rfl, rfl, rfl, rfl⟩
    unfold popAll
    rw [show s.stack = none from hstack]
  | cons v stack ih =>
    obtain ⟨rounds, rfl⟩ : ∃ n, rounds = n + 1 := ⟨rounds - 1, by simp at hrounds; omega⟩
    have hnodup' := hnodup
    rw [cons_append, nodup_cons, mem_append, not_or] at hnodup'
    obtain ⟨⟨hv_stack, hv_nodes⟩, _⟩ := hnodup'
    have hperm : (stack ++ v :: nodes).Perm (v :: stack ++ nodes) := perm_middle
    obtain ⟨s', hrun, hstack', hnodes', hin, hout, hrest⟩ := ih (s := { s with
        stack := s.gcNextGraphNode v
        gcNextGraphComponent := Function.update s.gcNextGraphComponent v firstGoodComponent
        gcNextGraphNode := Function.update s.gcNextGraphNode v s.firstComponent
        firstComponent := some v })
      (hstack.2.update_of_not_mem hv_stack _) (hnodes.push hv_nodes) (hperm.nodup_iff.mpr hnodup)
      (show stack.length ≤ rounds by simpa using hrounds)
    refine ⟨s', ?_, hstack', ?_, ?_, ?_, hrest⟩
    . unfold popAll
      rw [hstack.1]
      exact hrun
    . rw [reverse_cons, append_assoc]
      exact hnodes'
    . intro u hu
      by_cases hu' : u ∈ stack
      . exact hin u hu'
      have heq : u = v := (mem_cons.mp hu).resolve_right hu'
      rw [hout u hu', heq]
      exact update_self _ _ _
    . intro u hu
      rw [mem_cons, not_or] at hu
      rw [hout u hu.2]
      exact update_of_ne hu.1 _ _

omit [Fintype Node] in
theorem reset_spec {head : Option Node}
    {nodes : List Node} (hnodes : IsList s.gcNextGraphNode head nodes) (hrounds : nodes.length ≤ rounds)
    : ∃ s', reset rounds head s = some s' ∧ s'.gcNextGraphNode = s.gcNextGraphNode ∧
      s'.gcNextGraphComponent = s.gcNextGraphComponent ∧ s'.clock = s.clock ∧ s'.stack = s.stack ∧
      s'.firstComponent = s.firstComponent ∧ s'.stackFull = s.stackFull ∧
      (∀ u ∈ nodes, s'.gcDiscoveryTime u = .undefined ∧ s'.gcLowLink u = 0) ∧
      ∀ u, u ∉ nodes → s'.gcDiscoveryTime u = s.gcDiscoveryTime u ∧ s'.gcLowLink u = s.gcLowLink u := by
  induction nodes generalizing s head rounds with
  | nil =>
    refine ⟨s, ?_, rfl, rfl, rfl, rfl, rfl, rfl, by simp, fun _ _ => ⟨rfl, rfl⟩⟩
    unfold reset
    rw [show head = none from hnodes]
  | cons v nodes ih =>
    obtain ⟨rounds, rfl⟩ : ∃ n, rounds = n + 1 := ⟨rounds - 1, by simp at hrounds; omega⟩
    obtain ⟨rfl, hrest⟩ := hnodes
    obtain ⟨s', hrun, hnext, hcomponent, hclock, hstack, hfirst, hfull, hin, hout⟩ := ih (s := { s with
        gcDiscoveryTime := Function.update s.gcDiscoveryTime v .undefined
        gcLowLink := Function.update s.gcLowLink v 0 })
      hrest (show nodes.length ≤ rounds by simpa using hrounds)
    refine ⟨s', ?_, hnext, hcomponent, hclock, hstack, hfirst, hfull, ?_, ?_⟩
    . unfold reset
      exact hrun
    . intro u hu
      by_cases hu' : u ∈ nodes
      . exact hin u hu'
      have heq : u = v := (mem_cons.mp hu).resolve_right hu'
      rw [(hout u hu').1, (hout u hu').2, heq]
      exact ⟨update_self _ _ _, update_self _ _ _⟩
    . intro u hu
      rw [mem_cons, not_or] at hu
      rw [(hout u hu.2).1, (hout u hu.2).2]
      exact ⟨update_of_ne hu.1 _ _, update_of_ne hu.1 _ _⟩

omit [Fintype Node] in
theorem nextNodeInGroup_list {head : Option Node}
    {group : List Node}
    (hlist : IsList s.gcNextGraphNode head (group ++ groups.flatten))
    (hgroup : ∀ u ∈ group, s.gcNextGraphComponent u = groups.flatten.head?)
    (hlinked : Linked s.gcNextGraphComponent groups) (hnodup : groups.flatten.Nodup)
    {rest : List Node} (hcons : group = v :: rest)
    : IsList s.nextNodeInGroup (some v) group := by
  induction group generalizing head v rest with
  | nil => cases hcons
  | cons u group ih =>
    cases hcons
    refine ⟨rfl, ?_⟩
    unfold nextNodeInGroup
    cases group with
    | cons w group =>
      have hnext := hlist.2
      have hw : s.gcNextGraphNode u = some w := hnext.1
      have hsame : s.gcNextGraphComponent w = s.gcNextGraphComponent u := by
        rw [hgroup w (by simp), hgroup u (by simp)]
      rw [hw]
      dsimp only
      rw [if_pos hsame]
      exact ih hnext (fun x hx => hgroup x (by simp [hx])) rfl
    | nil =>
      have hnext : IsList s.gcNextGraphNode (s.gcNextGraphNode u) groups.flatten := hlist.2
      have hnext' := hnext.head_eq
      split
      . next w hw =>
        apply if_neg
        rw [hgroup u (by simp), ← hnext', hw]
        cases groups with
        | nil =>
          rw [hw] at hnext'
          cases hnext'
        | cons next groups =>
          obtain ⟨hne, hcomponent, _⟩ := hlinked
          obtain ⟨x, next, rfl⟩ := exists_cons_of_ne_nil hne
          rw [hw] at hnext'
          cases hnext'
          rw [hcomponent w (by simp)]
          rw [flatten_cons, cons_append, nodup_cons, mem_append, not_or] at hnodup
          intro heq
          exact hnodup.1.2 (mem_of_head? heq)
      . rfl

theorem nextGroup_list {result : Option Node}
    (hlist : IsList s.gcNextGraphNode result groups.flatten)
    (hlinked : Linked s.gcNextGraphComponent groups) (hnodup : groups.flatten.Nodup)
    : ∃ heads, IsList s.nextGroup result heads ∧ heads.length ≤ groups.flatten.length ∧
      heads.map (fun v => follow s.nextNodeInGroup (Fintype.card Node) (some v)) = groups := by
  induction groups generalizing result with
  | nil => exact ⟨[], hlist, Nat.le_refl _, rfl⟩
  | cons group groups ih =>
    obtain ⟨hne, hcomponent, hlinked'⟩ := hlinked
    have hnodup' := (nodup_append.mp hnodup).2.1
    obtain ⟨v, rest, rfl⟩ := exists_cons_of_ne_nil hne
    obtain ⟨heads, hheads, hlength, hmap⟩ := ih hlist.append_right hlinked' hnodup'
    have hresult : result = some v := hlist.1
    have hgroup : follow s.nextNodeInGroup (Fintype.card Node) (some v) = v :: rest := by
      apply (nextNodeInGroup_list hlist hcomponent hlinked' hnodup' rfl).follow_eq
      exact (nodup_append.mp hnodup).1.length_le_card
    refine ⟨v :: heads, ⟨hresult, ?_⟩, ?_, ?_⟩
    . unfold nextGroup
      rw [hcomponent v (by simp)]
      exact hheads
    . rw [flatten_cons, length_append, length_cons, length_cons]
      omega
    . rw [map_cons, hmap, hgroup]

theorem readGroups_eq {result : Option Node}
    (hlist : IsList s.gcNextGraphNode result groups.flatten)
    (hlinked : Linked s.gcNextGraphComponent groups) (hnodup : groups.flatten.Nodup)
    : readGroups s result = groups := by
  obtain ⟨heads, hheads, hlength, hmap⟩ := nextGroup_list hlist hlinked hnodup
  unfold readGroups
  rw [hheads.follow_eq (Nat.le_trans hlength hnodup.length_le_card)]
  exact hmap

def withRest (stack : List Node) (groups : List (List Node)) : List (List Node) :=
  match stack with
  | [] => groups
  | v :: stack => (v :: stack).reverse :: groups

omit [DecidableEq Node] [Fintype Node] in
theorem flatten_withRest (stack : List Node) (groups : List (List Node))
    : (withRest stack groups).flatten = stack.reverse ++ groups.flatten := by
  cases stack <;> rfl

theorem collect_spec (hlinks : Links edges s stack groups) (hempty : s.stackFull = false → stack = [])
    : ∃ s', collect s = some s' ∧ s'.stack = none ∧ s'.stackFull = false ∧
      IsList s'.gcNextGraphNode s'.firstComponent (withRest stack groups).flatten ∧
      Linked s'.gcNextGraphComponent (withRest stack groups) ∧
      s'.gcDiscoveryTime = s.gcDiscoveryTime ∧ s'.gcLowLink = s.gcLowLink ∧ s'.clock = s.clock := by
  unfold collect
  split
  . obtain ⟨s', hrun, hstack, hlist, hin, hout, htime, hlow, hclock⟩ :=
      popAll_spec s.firstComponent hlinks.stack_list hlinks.groups_list hlinks.nodup hlinks.stack_nodup.length_le_card
    refine ⟨{ s' with stackFull := false }, by rw [hrun]; rfl, hstack, rfl, ?_, ?_, htime, hlow, hclock⟩
    . rw [flatten_withRest]
      exact hlist
    have hlinked : Linked s'.gcNextGraphComponent groups :=
      linked_congr hlinks.linked (fun u hu => hout u (fun hu' => hlinks.not_finished hu' hu))
    cases stack with
    | nil => exact hlinked
    | cons v stack =>
      refine ⟨by simp, ?_, hlinked⟩
      intro u hu
      rw [← hlinks.groups_list.head_eq]
      exact hin u (mem_reverse.mp hu)
  . next hfull =>
    rw [Bool.not_eq_true] at hfull
    rw [hempty hfull] at hlinks ⊢
    exact ⟨s, rfl, hlinks.stack_list, hfull, hlinks.groups_list, hlinks.linked, rfl, rfl, rfl⟩

theorem getResultsList_spec (hlinks : Links edges s stack groups) (hempty : s.stackFull = false → stack = [])
    : ∃ s' result, getResultsList s = some (s', result) ∧ Ready s' ∧ readGroups s' result = withRest stack groups := by
  obtain ⟨s', hcollect, hstack, hfull, hlist, hlinked, htime, hlow, hclock⟩ :=
    collect_spec hlinks hempty
  have hnodup : (withRest stack groups).flatten.Nodup := by
    rw [flatten_withRest]
    exact ((reverse_perm stack).append_right _).nodup_iff.mpr hlinks.nodup
  obtain ⟨s'', hreset, hnext, hcomponent, hclock', hstack', hfirst, hfull', hin, hout⟩ :=
    reset_spec (s := { s' with firstComponent := none }) hlist hnodup.length_le_card
  refine ⟨s'', s'.firstComponent, ?_, ?_, ?_⟩
  . unfold getResultsList
    rw [hcollect]
    dsimp only
    rw [hreset]
    rfl
  . constructor
    . intro v
      by_cases hv : v ∈ (withRest stack groups).flatten
      . exact hin v hv
      have hundefined : s.gcDiscoveryTime v = .undefined := by
        rw [hlinks.undefined]
        rw [flatten_withRest, mem_append, mem_reverse, not_or] at hv
        exact hv
      rw [(hout v hv).1, (hout v hv).2]
      rw [htime, hlow]
      exact ⟨hundefined, hlinks.low_undefined v hundefined⟩
    . rw [hclock']
      rw [hclock]
      exact hlinks.clock_pos
    . rw [hstack']
      exact hstack
    . rw [hfirst]
    . rw [hfull']
      exact hfull
  . apply readGroups_eq
    . rw [hnext]
      exact hlist
    . rw [hcomponent]
      exact hlinked
    . exact hnodup

omit [DecidableEq Node] [Fintype Node] in
theorem Grouped.forward (h : Grouped edges groups)
    {before after : List (List Node)} {group : List Node} (hsplit : groups = before ++ group :: after)
    : ∀ u ∈ group, ∀ w ∈ edges u, w ∈ group ∨ w ∈ after.flatten := by
  induction before generalizing groups with
  | nil =>
    rw [hsplit] at h
    exact h.2.1
  | cons first before ih =>
    rw [hsplit] at h
    exact ih h.2.2 rfl

omit [DecidableEq Node] [Fintype Node] in
theorem Grouped.isComponent (h : Grouped edges groups)
    {group : List Node} (hgroup : group ∈ groups) : IsComponent edges group := by
  induction groups with
  | nil => simp at hgroup
  | cons first groups ih =>
    rw [mem_cons] at hgroup
    cases hgroup with
    | inl heq =>
      rw [heq]
      exact h.1
    | inr hgroup => exact ih h.2.2 hgroup

/--
The groups are read in topological order. They are unions of strongly connected components, and the
components themselves when the native stack does not overflow.
-/
theorem getResultsList_topological (edges : Node → List Node) (checkStackSize : Nat → Bool)
    (s : ComponentFinder Node) (hready : Ready s) (calls : List (Call Node)) (hcover : ∀ v, .addNode v ∈ calls)
    : ∃ s' s'' result, calls.foldlM (call edges checkStackSize) s = some s' ∧ getResultsList s' = some (s'', result) ∧
      (∀ v, s''.gcDiscoveryTime v = .undefined ∧ s''.gcLowLink v = 0) ∧
      (readGroups s'' result).flatten.Nodup ∧
      (∀ v, v ∈ (readGroups s'' result).flatten) ∧
      (∀ group ∈ readGroups s'' result, ∀ u ∈ group, ∀ w, Reach edges u w → Reach edges w u → w ∈ group) ∧
      (∀ before group after, readGroups s'' result = before ++ group :: after
        → ∀ u ∈ group, ∀ w ∈ edges u, w ∈ group ∨ w ∈ after.flatten) ∧
      ((∀ n, checkStackSize n = true) → .useOneComponent ∉ calls
        → ∀ group ∈ readGroups s'' result, ∀ u ∈ group, ∀ w ∈ group, Reach edges u w) := by
  obtain ⟨s', hrun, hbetween, _, hknown, hno_overflow⟩ :=
    calls_spec checkStackSize (show Between edges s from hready.between) calls
  obtain ⟨stack, groups, hlinks, hempty⟩ := hbetween.links
  obtain ⟨s'', result, hresults, hready', hread⟩ := getResultsList_spec hlinks hempty
  have hall : ∀ v, v ∈ stack ∨ v ∈ groups.flatten := by
    intro v
    have := hknown v (hcover v)
    rw [ne_eq, hlinks.undefined, not_and_or, not_not, not_not] at this
    exact this
  refine ⟨s', s'', result, hrun, hresults, hready'.undiscovered, ?_⟩
  rw [hread]
  refine ⟨?_, ?_, ?_, ?_, ?_⟩
  . rw [flatten_withRest]
    exact ((reverse_perm stack).append_right _).nodup_iff.mpr hlinks.nodup
  . intro v
    rw [flatten_withRest, mem_append, mem_reverse]
    exact hall v
  . intro group hgroup u hu w hto hfrom
    cases stack with
    | nil => exact (hlinks.grouped.isComponent hgroup u hu w).mpr ⟨hto, hfrom⟩
    | cons v stack =>
      rw [withRest, mem_cons] at hgroup
      cases hgroup with
      | inl heq =>
        rw [heq, mem_reverse] at hu ⊢
        refine (hall w).resolve_right ?_
        intro hw
        exact hlinks.not_finished hu (hlinks.grouped.reach_closed hw hfrom)
      | inr hgroup => exact (hlinks.grouped.isComponent hgroup u hu w).mpr ⟨hto, hfrom⟩
  . intro before group after hsplit u hu w hw
    cases stack with
    | nil => exact hlinks.grouped.forward hsplit u hu w hw
    | cons v stack =>
      rw [withRest, cons_eq_append_iff] at hsplit
      cases hsplit with
      | inl hfirst =>
        obtain ⟨_, hcons⟩ := hfirst
        rw [List.cons.injEq] at hcons
        rw [hcons.1, hcons.2, mem_reverse]
        exact hall w
      | inr hlater =>
        obtain ⟨before', _, hsplit⟩ := hlater
        exact hlinks.grouped.forward hsplit u hu w hw
  . intro hcheck hnot group hgroup u hu w hw
    rw [hempty (hno_overflow hcheck hnot hready.stackFull_eq)] at hgroup
    exact ((hlinks.grouped.isComponent hgroup u hu w).mp hw).1

end

def new (Node : Type) : ComponentFinder Node :=
  ⟨fun _ => none, fun _ => none, fun _ => .undefined, fun _ => 0, 1, none, none, none, false⟩

def cycleEdges (v : Fin 3) : List (Fin 3) :=
  if v = 0 then [1] else if v = 1 then [0, 2] else []

theorem getResultsList_topological_cycle
    : ∃ s' s'' result, [.addNode 0, .addNode 1, .addNode 2].foldlM (call cycleEdges (fun _ => true)) (new (Fin 3))
          = some s' ∧
        getResultsList s' = some (s'', result) ∧
        readGroups s'' result = [[0, 1], [2]] ∧ s''.gcDiscoveryTime 0 = .undefined := by
  obtain ⟨s', s'', result, hrun, hresults, hundefined, _⟩ := getResultsList_topological
    cycleEdges (fun _ => true) (new (Fin 3)) ⟨fun _ => ⟨rfl, rfl⟩, by decide, rfl, rfl, rfl⟩
    [.addNode 0, .addNode 1, .addNode 2] (by decide)
  refine ⟨s', s'', result, hrun, hresults, ?_, (hundefined 0).1⟩
  have hread : (([.addNode 0, .addNode 1, .addNode 2].foldlM (call cycleEdges (fun _ => true))
      (new (Fin 3))).bind getResultsList).map (fun r => readGroups r.1 r.2) = some [[0, 1], [2]] := by decide
  rw [hrun, Option.bind_some, hresults, Option.map_some, Option.some.injEq] at hread
  exact hread

end SpiderMonkey.ComponentFinder
