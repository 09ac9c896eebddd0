import SpiderMonkey.Lib.OptionBind
import SpiderMonkey.Jit.Impl.MoveResolver
import SpiderMonkey.Lib.Lists
import SpiderMonkey.Lib.ParallelAssign

/-!
This module contains the meaning of ordered moves and the proof that resolving carries out all
pending moves in parallel.
-/

namespace SpiderMonkey

open List Function

structure Machine (V : Type) where
  loc : MoveOperand → V
  slot : Int → V

namespace MoveOp

variable {V : Type}

-- A cycle begin saves its destination first, a cycle end reads the slot.
def exec (m : MoveOp) (s : Machine V) : Machine V :=
  let slot :=
    if m.isCycleBegin then Function.update s.slot m.cycleBeginSlot (s.loc m.to_) else s.slot
  let value := if m.isCycleEnd then slot m.cycleEndSlot else s.loc m.from_
  ⟨Function.update s.loc m.to_ value, slot⟩

def execAll (ms : List MoveOp) (s : Machine V) : Machine V :=
  ms.foldl (fun s m => m.exec s) s

def cycleStep (openSlot : Option Int) (m : MoveOp) : Option (Option Int) :=
  match m.isCycleBegin, m.isCycleEnd, openSlot with
  | false, false, openSlot => some openSlot
  | true, false, none => some (some m.cycleBeginSlot)
  | false, true, some slot => if m.cycleEndSlot = slot then some none else none
  | _, _, _ => none

structure IsPlain (m : MoveOp) : Prop where
  not_begin : m.isCycleBegin = false
  not_end : m.isCycleEnd = false

def pair (m : MoveOp) : MoveOperand × MoveOperand := (m.from_, m.to_)

@[simp]
theorem execAll_append (ms ms' : List MoveOp) (s : Machine V)
    : execAll (ms ++ ms') s = execAll ms' (execAll ms s) := by
  simp [execAll]

@[simp]
theorem execAll_singleton (m : MoveOp) (s : Machine V) : execAll [m] s = m.exec s := rfl

theorem exec_plain {m : MoveOp} (h : m.IsPlain) (s : Machine V)
    : m.exec s = ⟨Function.update s.loc m.to_ (s.loc m.from_), s.slot⟩ := by
  unfold exec
  simp [h.not_begin, h.not_end]

theorem new_isPlain (a b : MoveOperand) (type : MoveOp.Type) : (new a b type).IsPlain := ⟨rfl, rfl⟩

theorem cycleStep_plain (h : m.IsPlain) (openSlot : Option Int)
    : cycleStep openSlot m = some openSlot := by
  unfold cycleStep
  rw [h.not_begin, h.not_end]

theorem foldlM_append_plain (ms : List MoveOp) (h : ∀ m ∈ plain, m.IsPlain) (openSlot : Option Int)
    : (ms ++ plain).foldlM cycleStep openSlot = ms.foldlM cycleStep openSlot := by
  induction plain generalizing ms with
  | nil => simp
  | cons m plain ih =>
    rw [append_cons ms m plain, ih (ms ++ [m]) (fun m' hm' => h m' (by simp [hm'])), foldlM_append]
    cases ms.foldlM cycleStep openSlot with
    | none => rfl
    | some openSlot =>
      simp only [foldlM_cons, foldlM_nil, some_bind, cycleStep_plain (h m (by simp)), Option.pure_def]

/--
A plain move commutes with every move that does not touch its source and its destination.
-/
theorem exec_comm {m k : MoveOp} (hm : m.IsPlain) (h1 : k.from_ ≠ m.to_) (h2 : k.to_ ≠ m.to_)
    (h3 : k.to_ ≠ m.from_) (s : Machine V) : k.exec (m.exec s) = m.exec (k.exec s) := by
  rw [exec_plain hm, exec_plain hm]
  unfold exec
  simp only [update_of_ne h1, update_of_ne h2, update_of_ne h3.symm]
  rw [update_comm h2]

end MoveOp

namespace MoveResolver

open MoveOp ParallelAssign

variable {V : Type} {floatAliases : Nat → Nat → Bool} {canGrow : Nat → Bool}

section

variable {S : Set MoveOperand}
  (halias : ∀ a ∈ S, ∀ b ∈ S, a.aliases floatAliases b = true ↔ a = b)

include halias

theorem shareSource_exec {move : MoveOp} (hplain : move.IsPlain)
    (hmove : move.from_ ∈ S ∧ move.to_ ∈ S) (hrev : ∀ m ∈ rev, m.from_ ∈ S ∧ m.to_ ∈ S)
    (h : shareSource floatAliases move rev = some shared) (s : Machine V)
    : execAll shared.reverse s = execAll (rev.reverse ++ [move]) s := by
  induction rev generalizing shared with
  | nil => cases h
  | cons existing earlier ih =>
    have hexisting := hrev existing (by simp)
    unfold shareSource at h
    split at h
    . next hcond =>
      obtain ⟨hfrom, hto, _, hbegin, hend, _⟩ := hcond
      cases h
      have hne : existing.to_ ≠ move.to_ := by
        intro heq
        rw [(halias _ hexisting.2 _ hmove.2).mpr heq] at hto
        contradiction
      simp only [reverse_cons, append_assoc, execAll_append, execAll_singleton]
      rw [exec_plain ⟨hbegin, hend⟩, exec_plain (new_isPlain _ _ _), exec_plain hplain]
      simp only [MoveOp.new, update_self]
      congr 2
      rw [← hfrom]
      by_cases hself : existing.from_ = existing.to_
      . rw [hself, update_self]
      . rw [update_of_ne hself]
    split at h
    . next hcond =>
      obtain ⟨hfrom, hto, _, hbegin, hend, _⟩ := hcond
      cases h
      have hne : existing.to_ ≠ move.to_ := by
        intro heq
        rw [(halias _ hexisting.2 _ hmove.2).mpr heq] at hto
        contradiction
      simp only [reverse_cons, append_assoc, execAll_append, execAll_singleton]
      rw [exec_plain ⟨hbegin, hend⟩, exec_plain (new_isPlain _ _ _), exec_plain hplain, exec_plain hplain]
      simp only [MoveOp.new, update_self]
      rw [update_comm hne.symm, hfrom]
      congr 2
      by_cases hself : move.from_ = existing.to_
      . rw [hself, update_self]
      . rw [update_of_ne hself]
    . split at h
      . cases h
      next hnot =>
      obtain ⟨shared', hshared', rfl⟩ := Option.map_eq_some_iff.mp h
      unfold MoveOp.aliases at hnot
      simp only [Bool.or_eq_true, halias _ hexisting.1 _ hmove.1,
        halias _ hexisting.2 _ hmove.1, halias _ hexisting.1 _ hmove.2, halias _ hexisting.2 _ hmove.2, not_or] at hnot
      have hearlier := ih (fun m hm => hrev m (by simp [hm])) hshared'
      simp only [reverse_cons, append_assoc, execAll_append, execAll_singleton] at hearlier ⊢
      rw [hearlier, exec_comm hplain hnot.2.1 hnot.2.2 hnot.1.2]

omit halias in
theorem shareSource_operands {move : MoveOp}
    (hmove : move.from_ ∈ S ∧ move.to_ ∈ S) (hrev : ∀ m ∈ rev, m.from_ ∈ S ∧ m.to_ ∈ S)
    (h : shareSource floatAliases move rev = some shared)
    : ∀ m ∈ shared, m.from_ ∈ S ∧ m.to_ ∈ S := by
  induction rev generalizing shared with
  | nil => cases h
  | cons existing earlier ih =>
    have hexisting := hrev existing (by simp)
    have hearlier : ∀ m ∈ earlier, m.from_ ∈ S ∧ m.to_ ∈ S := by
      intro m hm
      apply hrev
      simp [hm]
    unfold shareSource at h
    split at h
    . cases h
      intro m hm
      simp only [mem_cons] at hm
      rcases hm with rfl | rfl | hm
      . exact ⟨hexisting.2, hmove.2⟩
      . exact hexisting
      . exact hearlier m hm
    split at h
    . cases h
      intro m hm
      simp only [mem_cons] at hm
      rcases hm with rfl | rfl | hm
      . exact ⟨hmove.2, hexisting.2⟩
      . exact hmove
      . exact hearlier m hm
    split at h
    . cases h
    obtain ⟨shared', hshared', rfl⟩ := Option.map_eq_some_iff.mp h
    intro m hm
    cases hm with
    | head => exact hexisting
    | tail _ hm => exact ih hearlier hshared' m hm

omit halias in
theorem shareSource_cycles {move : MoveOp} (hplain : move.IsPlain)
    (h : shareSource floatAliases move rev = some shared) (openSlot : Option Int)
    : shared.reverse.foldlM cycleStep openSlot = rev.reverse.foldlM cycleStep openSlot := by
  induction rev generalizing shared with
  | nil => cases h
  | cons existing earlier ih =>
    unfold shareSource at h
    split at h
    . next hcond =>
      obtain ⟨_, _, _, hbegin, hend, _⟩ := hcond
      cases h
      have hexisting : existing.IsPlain := ⟨hbegin, hend⟩
      simp only [reverse_cons, append_assoc]
      rw [foldlM_append_plain, foldlM_append_plain]
      . simp [hexisting]
      . simp [hexisting, new_isPlain]
    split at h
    . next hcond =>
      obtain ⟨_, _, _, hbegin, hend, _⟩ := hcond
      cases h
      have hexisting : existing.IsPlain := ⟨hbegin, hend⟩
      simp only [reverse_cons, append_assoc]
      rw [foldlM_append_plain, foldlM_append_plain]
      . simp [hexisting]
      . simp [hplain, new_isPlain]
    . split at h
      . cases h
      . obtain ⟨shared', hshared', rfl⟩ := Option.map_eq_some_iff.mp h
        rw [reverse_cons, reverse_cons, foldlM_append, foldlM_append, ih hshared']

/--
Wherever `addOrderedMove` puts the move, running all moves does the same as running it last.
-/
theorem addOrderedMove_spec {ordered ordered' : List MoveOp} {move : MoveOp}
    (hmove : move.from_ ∈ S ∧ move.to_ ∈ S) (hordered : ∀ m ∈ ordered, m.from_ ∈ S ∧ m.to_ ∈ S)
    (h : addOrderedMove floatAliases canGrow ordered move = some ordered')
    : (∀ (s : Machine V), execAll ordered' s = move.exec (execAll ordered s)) ∧
      (∀ m ∈ ordered', m.from_ ∈ S ∧ m.to_ ∈ S) ∧
      ordered'.foldlM cycleStep none = (ordered ++ [move]).foldlM cycleStep none := by
  have happend : ∀ m ∈ ordered ++ [move], m.from_ ∈ S ∧ m.to_ ∈ S := by
    intro m hm
    rw [mem_append, mem_singleton] at hm
    cases hm with
    | inl hm => exact hordered m hm
    | inr hm =>
      rw [hm]
      exact hmove
  unfold addOrderedMove at h
  split at h
  . split at h
    . cases h
      exact ⟨fun s => by simp, happend, rfl⟩
    next hplain =>
    simp only [not_or, Bool.not_eq_true] at hplain
    have hplain : move.IsPlain := ⟨hplain.2.1, hplain.2.2⟩
    have hrev : ∀ m ∈ ordered.reverse, m.from_ ∈ S ∧ m.to_ ∈ S := by
      intro m hm
      apply hordered
      simpa using hm
    split at h
    . next shared hshared =>
      cases h
      refine ⟨?_, ?_, ?_⟩
      . intro s
        rw [shareSource_exec halias hplain hmove hrev hshared]
        simp
      . intro m hm
        apply shareSource_operands hmove hrev hshared
        simpa using hm
      . rw [shareSource_cycles hplain hshared, reverse_reverse, foldlM_append_plain]
        simpa using hplain
    . cases h
      exact ⟨fun s => by simp, happend, rfl⟩
  . cases h

end

section

variable {moves done : List (MoveOperand × MoveOperand)} {s0 : Machine V}
  {pending stack ordered : List MoveOp}

/--
The state of the traversal: `done` are the moves that `ordered` carries out, the others are on the
stack, which is a path, or still pending.
-/
structure Progress (moves : List (MoveOperand × MoveOperand)) (s0 : Machine V)
    (pending stack ordered : List MoveOp) (done : List (MoveOperand × MoveOperand)) : Prop where
  perm : (done ++ (stack.map pair ++ pending.map pair)).Perm moves
  loc_eq : (execAll ordered s0).loc = assign done s0.loc
  pending_plain : ∀ m ∈ pending, m.IsPlain
  path : (stack.map pair).IsChain (fun above below => above.1 = below.2)

/--
Only the root of the traversal can be reached again. Its cycle is not found yet (`idle`), its begin
is on the stack (`found`), or its begin is carried out and the slot is in use (`broken`).
-/
inductive CycleMode (s0 : Machine V) (pending stack ordered : List MoveOp)
    (done : List (MoveOperand × MoveOperand)) : Prop where
  | empty
    (stack_eq : stack = [])
    (unread : ∀ m ∈ pending, m.from_ ∉ done.map Prod.snd)
    (closed : ordered.foldlM cycleStep none = some none)
  | idle (above : List MoveOp) (root : MoveOp)
    (stack_eq : stack = above ++ [root])
    (plain : ∀ m ∈ stack, m.IsPlain)
    (unread : ∀ m ∈ stack ++ pending, m.from_ ∉ done.map Prod.snd)
    (no_cycle : ∀ m ∈ stack, m.to_ ≠ root.from_)
    (closed : ordered.foldlM cycleStep none = some none)
  | found (above mid : List MoveOp) (cycleBegin root : MoveOp)
    (stack_eq : stack = above ++ cycleBegin :: (mid ++ [root]))
    (above_plain : ∀ m ∈ above, m.IsPlain)
    (mid_plain : ∀ m ∈ mid, m.IsPlain)
    (is_begin : cycleBegin.isCycleBegin = true)
    (begin_not_end : cycleBegin.isCycleEnd = false)
    (is_end : root.isCycleEnd = true)
    (end_not_begin : root.isCycleBegin = false)
    (slot_eq : cycleBegin.cycleBeginSlot = root.cycleEndSlot)
    (cycle : cycleBegin.to_ = root.from_)
    (unread : ∀ m ∈ stack ++ pending, m.from_ ∉ done.map Prod.snd)
    (closed : ordered.foldlM cycleStep none = some none)
  | broken (above : List MoveOp) (root : MoveOp)
    (stack_eq : stack = above ++ [root])
    (above_plain : ∀ m ∈ above, m.IsPlain)
    (is_end : root.isCycleEnd = true)
    (end_not_begin : root.isCycleBegin = false)
    (saved : (execAll ordered s0).slot root.cycleEndSlot = s0.loc root.from_)
    (overwritten : root.from_ ∈ done.map Prod.snd)
    (unread : ∀ m ∈ above ++ pending, m.from_ ∉ done.map Prod.snd)
    (opened : ordered.foldlM cycleStep none = some (some root.cycleEndSlot))

theorem Progress.nodup (hmoves : (moves.map Prod.snd).Nodup) (h : Progress moves s0 pending stack ordered done)
    : (done.map Prod.snd ++ (stack.map MoveOp.to_ ++ pending.map MoveOp.to_)).Nodup := by
  have hperm := (h.perm.map Prod.snd).nodup_iff.mpr hmoves
  have hpair : Prod.snd ∘ pair = MoveOp.to_ := rfl
  simpa [hpair] using hperm

theorem Progress.mem_moves (h : Progress moves s0 pending stack ordered done)
    (hm : m ∈ stack ++ pending) : pair m ∈ moves := by
  rw [← h.perm.mem_iff, mem_append, ← map_append]
  right
  exact mem_map_of_mem hm

/--
A move that blocks the top of the stack extends the path, also with cycle marks on the stack.
-/
theorem Progress.push {last blocking blocking' : MoveOp} {rest pending' stack' : List MoveOp}
    (h : Progress moves s0 pending (last :: rest) ordered done)
    (hperm : (blocking :: pending').Perm pending) (hlink : blocking.from_ = last.to_)
    (hblocking : pair blocking' = pair blocking) (hstack : stack'.map pair = (last :: rest).map pair)
    : Progress moves s0 pending' (blocking' :: stack') ordered done := by
  constructor
  . apply List.Perm.trans _ h.perm
    apply List.Perm.append_left
    rw [map_cons, hblocking, hstack, cons_append]
    apply List.Perm.trans perm_middle.symm
    apply List.Perm.append_left
    exact hperm.map pair
  . exact h.loc_eq
  . intro m hm
    exact h.pending_plain m (hperm.mem_iff.mp (by simp [hm]))
  . rw [map_cons, hblocking, hstack, map_cons, isChain_cons_cons]
    exact ⟨hlink, h.path⟩

/--
The top of the stack is carried out.
-/
theorem Progress.pop {last : MoveOp} {rest ordered' : List MoveOp}
    (h : Progress moves s0 pending (last :: rest) ordered done)
    (hexec : (execAll ordered' s0).loc = Function.update (execAll ordered s0).loc last.to_ (s0.loc last.from_))
    : Progress moves s0 pending rest ordered' (pair last :: done) := by
  constructor
  . apply List.Perm.trans _ h.perm
    exact perm_middle.symm
  . rw [hexec, h.loc_eq]
    rfl
  . exact h.pending_plain
  . have := h.path
    rw [map_cons] at this
    exact this.tail

/--
On the path all moves but the root read the destination of another move on the stack.
-/
theorem Progress.above_reads {above : List MoveOp} {root : MoveOp}
    (h : Progress moves s0 pending (above ++ [root]) ordered done) (hm : m ∈ above)
    : ∃ m' ∈ above ++ [root], m.from_ = m'.to_ := by
  have hpath := h.path
  rw [map_append, map_singleton] at hpath
  obtain ⟨y, hy, hread⟩ := Lists.chain_next hpath (mem_map_of_mem hm)
  rw [← map_singleton, ← map_append, mem_map] at hy
  obtain ⟨m', hm', rfl⟩ := hy
  exact ⟨m', hm', hread⟩

theorem Progress.above_not_blocked (hmoves : (moves.map Prod.snd).Nodup) {above : List MoveOp}
    {root blocking : MoveOp} (h : Progress moves s0 pending (above ++ [root]) ordered done)
    (hblocking : blocking ∈ pending) (hm : m ∈ above)
    : m.from_ ≠ blocking.to_ := by
  obtain ⟨m', hm', hread⟩ := h.above_reads hm
  have hnodup := (nodup_append.mp (h.nodup hmoves)).2.1
  rw [hread]
  exact (nodup_append.mp hnodup).2.2 _ (mem_map_of_mem hm') _ (mem_map_of_mem hblocking)

theorem CycleMode.push {last blocking : MoveOp} {rest pending' : List MoveOp}
    (hmode : CycleMode s0 pending (last :: rest) ordered done)
    (hperm : (blocking :: pending').Perm pending) (hplain : blocking.IsPlain)
    (hnot : ∀ m ∈ last :: rest, m.from_ ≠ blocking.to_)
    : CycleMode s0 pending' (blocking :: last :: rest) ordered done := by
  have hblocking : blocking ∈ pending := hperm.mem_iff.mp (by simp)
  have hpending : ∀ m ∈ pending', m ∈ pending := fun m hm => hperm.mem_iff.mp (by simp [hm])
  cases hmode with
  | empty stack_eq => cases stack_eq
  | idle above root stack_eq plain unread no_cycle closed =>
    apply CycleMode.idle (blocking :: above) root
    . rw [stack_eq]
      rfl
    . exact forall_mem_cons.mpr ⟨hplain, plain⟩
    . intro m hm
      simp only [cons_append, mem_cons, mem_append] at hm unread
      grind
    . exact forall_mem_cons.mpr ⟨(hnot root (by rw [stack_eq]; simp)).symm, no_cycle⟩
    . exact closed
  | found above mid cycleBegin root stack_eq above_plain mid_plain is_begin begin_not_end is_end
      end_not_begin slot_eq cycle unread closed =>
    apply CycleMode.found (blocking :: above) mid cycleBegin root
    . rw [stack_eq]
      rfl
    . exact forall_mem_cons.mpr ⟨hplain, above_plain⟩
    . exact mid_plain
    . exact is_begin
    . exact begin_not_end
    . exact is_end
    . exact end_not_begin
    . exact slot_eq
    . exact cycle
    . intro m hm
      simp only [cons_append, mem_cons, mem_append] at hm unread
      grind
    . exact closed
  | broken above root stack_eq above_plain is_end end_not_begin saved overwritten unread opened =>
    apply CycleMode.broken (blocking :: above) root
    . rw [stack_eq]
      rfl
    . exact forall_mem_cons.mpr ⟨hplain, above_plain⟩
    . exact is_end
    . exact end_not_begin
    . exact saved
    . exact overwritten
    . intro m hm
      simp only [cons_append, mem_cons, mem_append] at hm unread
      grind
    . exact opened

/--
A move to the source of a move on the stack closes a cycle with the root, and does so only once.
-/
theorem CycleMode.push_cycle (hmoves : (moves.map Prod.snd).Nodup) {last blocking : MoveOp}
    {rest pending' : List MoveOp} (hprogress : Progress moves s0 pending (last :: rest) ordered done)
    (hmode : CycleMode s0 pending (last :: rest) ordered done)
    (hperm : (blocking :: pending').Perm pending) (hplain : blocking.IsPlain)
    (hcycled : ∃ m ∈ last :: rest, m.from_ = blocking.to_) (type : MoveOp.Type) (slot : Int) (mark : MoveOp → MoveOp)
    (hmark : ∀ m ∈ last :: rest, mark m = if m.from_ = blocking.to_ then m.setCycleEnd slot else m)
    : CycleMode s0 pending' (blocking.setCycleBegin type slot :: (last :: rest).map mark) ordered done := by
  have hblocking : blocking ∈ pending := hperm.mem_iff.mp (by simp)
  have hpending : ∀ m ∈ pending', m ∈ pending := fun m hm => hperm.mem_iff.mp (by simp [hm])
  have hnodup := nodup_append.mp (hprogress.nodup hmoves)
  have hnodup' := nodup_append.mp hnodup.2.1
  have hroot : ∀ (above : List MoveOp) (root : MoveOp), last :: rest = above ++ [root] → root.from_ = blocking.to_ := by
    intro above root hstack
    rw [hstack] at hprogress
    obtain ⟨m, hm, heq⟩ := hcycled
    rw [hstack, mem_append, mem_singleton] at hm
    cases hm with
    | inl hm => exact absurd heq (hprogress.above_not_blocked hmoves hblocking hm)
    | inr hm =>
      rw [← hm]
      exact heq
  cases hmode with
  | empty stack_eq => cases stack_eq
  | idle above root stack_eq plain unread no_cycle closed =>
    have hroot := hroot above root stack_eq
    have hmap : (last :: rest).map mark = above ++ [root.setCycleEnd slot] := by
      rw [stack_eq, map_append, map_singleton, hmark root (by rw [stack_eq]; simp), if_pos hroot]
      congr 1
      rw [stack_eq] at hprogress
      have hsame : ∀ m ∈ above, mark m = id m := by
        intro m hm
        rw [hmark m (by rw [stack_eq]; simp [hm]), if_neg (hprogress.above_not_blocked hmoves hblocking hm)]
        rfl
      rw [map_congr_left hsame, map_id]
    rw [hmap]
    have hroot_plain := plain root (by rw [stack_eq]; simp)
    apply CycleMode.found [] above (blocking.setCycleBegin type slot) (root.setCycleEnd slot)
    . rfl
    . intro m hm
      cases hm
    . intro m hm
      exact plain m (by rw [stack_eq]; simp [hm])
    . rfl
    . exact hplain.not_end
    . rfl
    . exact hroot_plain.not_begin
    . rfl
    . exact hroot.symm
    . intro m hm
      have hfrom : m.from_ = blocking.from_ ∨ m.from_ = root.from_ ∨ m ∈ above ∨ m ∈ pending := by
        simp only [cons_append, mem_cons, mem_append, append_assoc, nil_append] at hm
        rcases hm with rfl | hm | rfl | hm
        . exact Or.inl rfl
        . exact Or.inr (Or.inr (Or.inl hm))
        . exact Or.inr (Or.inl rfl)
        . exact Or.inr (Or.inr (Or.inr (hpending m hm)))
      rcases hfrom with hfrom | hfrom | hm | hm
      . rw [hfrom]
        exact unread blocking (by simp [hblocking])
      . rw [hfrom]
        exact unread root (by rw [stack_eq]; simp)
      . exact unread m (by rw [stack_eq]; simp [hm])
      . exact unread m (by simp [hm])
    . exact closed
  | found above mid cycleBegin root stack_eq _ _ _ _ _ _ _ cycle =>
    have hroot := hroot (above ++ cycleBegin :: mid) root (by rw [stack_eq]; simp)
    rw [← cycle] at hroot
    exact absurd hroot (hnodup'.2.2 _ (mem_map_of_mem (by rw [stack_eq]; simp)) _ (mem_map_of_mem hblocking))
  | broken above root stack_eq _ _ _ _ overwritten =>
    have hroot := hroot above root stack_eq
    exact absurd hroot (hnodup.2.2 _ overwritten _ (by rw [mem_append]; exact Or.inr (mem_map_of_mem hblocking)))

/--
Carrying out the top of the stack, which no pending move reads, writes the value from before the
first move to its destination.
-/
theorem CycleMode.pop (hmoves : (moves.map Prod.snd).Nodup) {last : MoveOp}
    {rest ordered' : List MoveOp} (hprogress : Progress moves s0 pending (last :: rest) ordered done)
    (hmode : CycleMode s0 pending (last :: rest) ordered done) (hfree : ∀ m ∈ pending, m.from_ ≠ last.to_)
    (hexec : execAll ordered' s0 = last.exec (execAll ordered s0))
    (hcycles : ordered'.foldlM cycleStep none = (ordered ++ [last]).foldlM cycleStep none)
    : (execAll ordered' s0).loc = Function.update (execAll ordered s0).loc last.to_ (s0.loc last.from_) ∧
      CycleMode s0 pending rest ordered' (pair last :: done) := by
  have hnodup := nodup_append.mp (hprogress.nodup hmoves)
  have hloc : ∀ l, l ∉ done.map Prod.snd → (execAll ordered s0).loc l = s0.loc l := by
    intro l hl
    rw [hprogress.loc_eq]
    exact assign_of_not_mem _ hl
  have hnext (l : List MoveOp) (unread : ∀ m ∈ last :: l ++ pending, m.from_ ∉ done.map Prod.snd)
      (hne : ∀ m ∈ l, m.from_ ≠ last.to_) : ∀ m ∈ l ++ pending, m.from_ ∉ (pair last :: done).map Prod.snd := by
    intro m hm
    rw [map_cons, mem_cons, not_or]
    refine ⟨?_, unread m (mem_cons_of_mem last hm)⟩
    cases mem_append.mp hm with
    | inl hm => exact hne m hm
    | inr hm => exact hfree m hm
  have hrest : ∀ m ∈ rest, m.to_ ≠ last.to_ := by
    intro m hm
    have := (nodup_append.mp hnodup.2.1).1
    rw [map_cons, nodup_cons] at this
    intro heq
    apply this.1
    rw [← heq]
    exact mem_map_of_mem hm
  have hpath : ∀ (above : List MoveOp) (root : MoveOp), rest = above ++ [root] → ∀ m ∈ above, m.from_ ≠ last.to_ := by
    intro above root hstack m hm
    have hchain := hprogress.path.tail
    rw [map_cons, tail_cons, hstack, map_append, map_singleton] at hchain
    obtain ⟨y, hy, hread⟩ := Lists.chain_next hchain (mem_map_of_mem hm)
    rw [← map_singleton, ← map_append, ← hstack, mem_map] at hy
    obtain ⟨m', hm', rfl⟩ := hy
    have hread : m.from_ = m'.to_ := hread
    rw [hread]
    exact hrest m' hm'
  rw [hexec]
  rw [foldlM_append] at hcycles
  cases hmode with
  | empty stack_eq => cases stack_eq
  | idle above root stack_eq plain unread no_cycle closed =>
    have hlast_plain := plain last (by simp)
    have hread := hloc _ (unread last (by simp))
    rw [exec_plain hlast_plain, hread]
    refine ⟨rfl, ?_⟩
    have hclosed : ordered'.foldlM cycleStep none = some none := by
      rw [hcycles, closed]
      simp [cycleStep_plain hlast_plain]
    cases above with
    | nil =>
      cases stack_eq
      apply CycleMode.empty rfl
      . exact hnext [] unread (forall_mem_nil _)
      . exact hclosed
    | cons last' above =>
      cases stack_eq
      apply CycleMode.idle above root rfl
      . exact (forall_mem_cons.mp plain).2
      . apply hnext (above ++ [root]) unread
        intro m hm
        rw [mem_append, mem_singleton] at hm
        rcases hm with hm | rfl
        . exact hpath above root rfl m hm
        . exact (no_cycle last (by simp)).symm
      . exact (forall_mem_cons.mp no_cycle).2
      . exact hclosed
  | found above mid cycleBegin root stack_eq above_plain mid_plain is_begin begin_not_end is_end
      end_not_begin slot_eq cycle unread closed =>
    cases above with
    | nil =>
      cases stack_eq
      have hread := hloc _ (unread last (by simp))
      have hsaved := hloc _ (unread root (by simp))
      constructor
      . unfold exec
        simp only [is_begin, begin_not_end, if_true, Bool.false_eq_true, if_false, hread]
      apply CycleMode.broken mid root rfl mid_plain is_end end_not_begin
      . rw [hexec]
        unfold exec
        simp only [is_begin, if_true, slot_eq, update_self, cycle, hsaved]
      . rw [← cycle]
        simp [pair]
      . apply hnext mid _ (hpath mid root rfl)
        intro m hm
        apply unread m
        simp only [cons_append, mem_cons, mem_append] at hm ⊢
        grind
      . rw [hcycles, closed]
        simp [cycleStep, is_begin, begin_not_end, slot_eq]
    | cons last' above =>
      cases stack_eq
      have hlast_plain := above_plain last (by simp)
      have hread := hloc _ (unread last (by simp))
      rw [exec_plain hlast_plain, hread]
      refine ⟨rfl, ?_⟩
      apply CycleMode.found above mid cycleBegin root rfl _ mid_plain is_begin begin_not_end is_end
        end_not_begin slot_eq cycle
      . apply hnext (above ++ cycleBegin :: (mid ++ [root])) unread
        intro m hm
        have hstack : above ++ cycleBegin :: (mid ++ [root]) = (above ++ cycleBegin :: mid) ++ [root] := by simp
        rw [hstack, mem_append, mem_singleton] at hm
        cases hm with
        | inl hm => exact hpath _ root hstack m hm
        | inr hm =>
          rw [hm, ← cycle]
          exact hrest cycleBegin (by simp)
      . rw [hcycles, closed]
        simp [cycleStep_plain hlast_plain]
      . exact (forall_mem_cons.mp above_plain).2
  | broken above root stack_eq above_plain is_end end_not_begin saved overwritten unread opened =>
    cases above with
    | nil =>
      cases stack_eq
      constructor
      . unfold exec
        simp only [is_end, end_not_begin, Bool.false_eq_true, if_false, if_true, saved]
      apply CycleMode.empty rfl
      . intro m hm
        rw [map_cons, mem_cons, not_or]
        exact ⟨hfree m hm, unread m hm⟩
      . rw [hcycles, opened]
        simp [cycleStep, is_end, end_not_begin]
    | cons last' above =>
      cases stack_eq
      have hlast_plain := above_plain last (by simp)
      have hread := hloc _ (unread last (by simp))
      rw [exec_plain hlast_plain, hread]
      refine ⟨rfl, ?_⟩
      apply CycleMode.broken above root rfl _ is_end end_not_begin
      . rw [hexec, exec_plain hlast_plain]
        exact saved
      . rw [map_cons, mem_cons]
        exact Or.inr overwritten
      . exact hnext above unread (hpath above root rfl)
      . rw [hcycles, opened]
        simp [cycleStep_plain hlast_plain]
      . exact (forall_mem_cons.mp above_plain).2

end

theorem findBlockingMove_some {pending : List MoveOp} {last blocking : MoveOp}
    (h : findBlockingMove floatAliases pending last = some blocking)
    : blocking.from_.aliases floatAliases last.to_ = true := by
  unfold findBlockingMove at h
  have := List.find?_some h
  exact this

section

variable {moves : List (MoveOperand × MoveOperand)} {S : Set MoveOperand}
  (hmoves : (moves.map Prod.snd).Nodup) (hS : ∀ m ∈ moves, m.1 ∈ S ∧ m.2 ∈ S)
  (halias : ∀ a ∈ S, ∀ b ∈ S, a.aliases floatAliases b = true ↔ a = b)

include hmoves hS halias

theorem traverse_spec {rootType : MoveOp.Type} {pending stack ordered : List MoveOp}
    {curCycles : Nat} {res : List MoveOp × List MoveOp × Nat} {s0 : Machine V}
    {done : List (MoveOperand × MoveOperand)}
    (hrun : traverse floatAliases canGrow rootType pending stack ordered curCycles = some res)
    (hprogress : Progress moves s0 pending stack ordered done) (hmode : CycleMode s0 pending stack ordered done)
    (hordered : ∀ m ∈ ordered, m.from_ ∈ S ∧ m.to_ ∈ S)
    : ∃ done', Progress moves s0 res.1 [] res.2.1 done' ∧ CycleMode s0 res.1 [] res.2.1 done' ∧
      ∀ m ∈ res.2.1, m.from_ ∈ S ∧ m.to_ ∈ S := by
  have hblocks {pending rest : List MoveOp} {last blocking : MoveOp} {ordered : List MoveOp}
      {done : List (MoveOperand × MoveOperand)} (hprogress : Progress moves s0 pending (last :: rest) ordered done)
      (hmem : blocking ∈ pending) (hblocking : findBlockingMove floatAliases pending last = some blocking)
      : blocking.to_ ∈ S ∧ blocking.from_ = last.to_ := by
    have hblocking_S := hS _ (hprogress.mem_moves (m := blocking) (by simp [hmem]))
    have hlast_S := hS _ (hprogress.mem_moves (m := last) (by simp))
    exact ⟨hblocking_S.2, (halias _ hblocking_S.1 _ hlast_S.2).mp (findBlockingMove_some hblocking)⟩
  fun_induction traverse floatAliases canGrow rootType pending stack ordered curCycles generalizing done with
  | case1 pending ordered curCycles =>
    cases hrun
    exact ⟨done, hprogress, hmode, hordered⟩
  | case2 pending ordered curCycles last rest blocking hblocking hcycled ih =>
    have hperm := Lists.find?_eraseP_perm hblocking
    have hmem : blocking ∈ pending := hperm.mem_iff.mp (by simp)
    obtain ⟨hblocking_S, hlink⟩ := hblocks hprogress hmem hblocking
    have hplain := hprogress.pending_plain blocking hmem
    have hstack_S : ∀ m ∈ last :: rest, m.from_ ∈ S := by
      intro m hm
      exact (hS _ (hprogress.mem_moves (m := m) (mem_append_left _ hm))).1
    apply ih hrun
    . apply hprogress.push hperm hlink
      . rfl
      unfold setCycleEnds
      rw [map_map]
      apply map_congr_left
      intro m _
      simp only [comp_apply]
      split <;> rfl
    . apply hmode.push_cycle hmoves hprogress hperm hplain _ rootType curCycles (fun other =>
        if other.from_.aliases floatAliases blocking.to_ then other.setCycleEnd curCycles else other)
      . intro m hm
        have hread : m.from_.aliases floatAliases blocking.to_ = true ↔ m.from_ = blocking.to_ :=
          halias _ (hstack_S m hm) _ hblocking_S
        simp only [hread]
      . unfold hasCycledMove at hcycled
        rw [any_eq_true] at hcycled
        obtain ⟨m, hm, hread⟩ := hcycled
        exact ⟨m, hm, (halias _ (hstack_S m hm) _ hblocking_S).mp hread⟩
    . exact hordered
  | case3 pending ordered curCycles last rest blocking hblocking hnot ih =>
    have hperm := Lists.find?_eraseP_perm hblocking
    have hmem : blocking ∈ pending := hperm.mem_iff.mp (by simp)
    obtain ⟨hblocking_S, hlink⟩ := hblocks hprogress hmem hblocking
    apply ih hrun
    . exact hprogress.push hperm hlink rfl rfl
    . apply hmode.push hperm (hprogress.pending_plain blocking hmem)
      intro m hm hread
      apply hnot
      unfold hasCycledMove
      rw [any_eq_true]
      have hm_S := (hS _ (hprogress.mem_moves (m := m) (mem_append_left _ hm))).1
      exact ⟨m, hm, (halias _ hm_S _ hblocking_S).mpr hread⟩
    . exact hordered
  | case4 pending ordered curCycles last rest hblocking ordered' hadd ih =>
    have hlast_S := hS _ (hprogress.mem_moves (m := last) (by simp))
    obtain ⟨hexec, hordered', hcycles⟩ := addOrderedMove_spec (V := V) halias hlast_S hordered hadd
    have hfree : ∀ m ∈ pending, m.from_ ≠ last.to_ := by
      intro m hm hread
      have hm_S := (hS _ (hprogress.mem_moves (m := m) (by simp [hm]))).1
      have := List.find?_eq_none.mp hblocking m hm
      exact this ((halias _ hm_S _ hlast_S.2).mpr hread)
    obtain ⟨hloc, hmode'⟩ := hmode.pop hmoves hprogress hfree (hexec s0) hcycles
    exact ih hrun (hprogress.pop hloc) hmode' hordered'
  | case5 => cases hrun

theorem resolveFrom_spec {pending ordered : List MoveOp} {done : List (MoveOperand × MoveOperand)}
    (hrun : resolveFrom floatAliases canGrow pending ordered numCycles = some res)
    (hprogress : Progress moves s0 pending [] ordered done) (hmode : CycleMode s0 pending [] ordered done)
    (hordered : ∀ m ∈ ordered, m.from_ ∈ S ∧ m.to_ ∈ S) (hne : ∀ m ∈ moves, m.1 ≠ m.2)
    : ∃ done', Progress moves s0 [] [] res.1 done' ∧ CycleMode s0 [] [] res.1 done' := by
  fun_induction resolveFrom floatAliases canGrow pending ordered numCycles generalizing done with
  | case1 pending ordered numCycles hlast =>
    cases hrun
    rw [List.getLast?_eq_none_iff] at hlast
    rw [hlast] at hprogress hmode
    exact ⟨done, hprogress, hmode⟩
  | case2 pending ordered numCycles pm hlast remaining ordered' curCycles htraverse ih =>
    have hpending : pending = pending.dropLast ++ [pm] := by
      rw [dropLast_append_getLast? pm hlast]
    have hpm_mem : pm ∈ pending := mem_of_getLast? hlast
    have hpm := hprogress.pending_plain pm hpm_mem
    have hdrop : ∀ m ∈ pending.dropLast, m ∈ pending := fun m hm => dropLast_subset pending hm
    have hstart : Progress moves s0 pending.dropLast [pm] ordered done := by
      constructor
      . apply List.Perm.trans _ hprogress.perm
        apply List.Perm.append_left
        rw [← map_append, map_nil, nil_append]
        apply List.Perm.map
        conv => rhs; rw [hpending]
        exact perm_append_comm
      . exact hprogress.loc_eq
      . intro m hm
        exact hprogress.pending_plain m (hdrop m hm)
      . exact isChain_singleton _
    have hstart_mode : CycleMode s0 pending.dropLast [pm] ordered done := by
      cases hmode with
      | empty _ unread closed =>
        apply CycleMode.idle [] pm (show [pm] = [] ++ [pm] from rfl)
        . intro m hm
          rw [mem_singleton] at hm
          rw [hm]
          exact hpm
        . intro m hm
          rw [mem_append, mem_singleton] at hm
          cases hm with
          | inl hm =>
            rw [hm]
            exact unread pm hpm_mem
          | inr hm => exact unread m (hdrop m hm)
        . intro m hm
          rw [mem_singleton] at hm
          rw [hm]
          exact (hne _ (hprogress.mem_moves (m := pm) (by simp [hpm_mem]))).symm
        . exact closed
      | idle above root stack_eq => simp at stack_eq
      | found above mid cycleBegin root stack_eq => simp at stack_eq
      | broken above root stack_eq => simp at stack_eq
    obtain ⟨done', hprogress', hmode', hordered'⟩ :=
      traverse_spec hmoves hS halias htraverse hstart hstart_mode hordered
    exact ih hrun hprogress' hmode' hordered'
  | case3 => cases hrun

theorem resolve_spec {pending ordered : List MoveOp}
    (hrun : resolve floatAliases canGrow pending = some (ordered, numCycles)) (s0 : Machine V)
    (hpairs : pending.map pair = moves) (hplain : ∀ m ∈ pending, m.IsPlain) (hne : ∀ m ∈ moves, m.1 ≠ m.2)
    : (∃ done, Progress moves s0 [] [] ordered done) ∧ ordered.foldlM cycleStep none = some none := by
  have hprogress : Progress moves s0 pending [] [] [] := by
    refine ⟨?_, rfl, hplain, isChain_nil⟩
    rw [hpairs]
    exact List.Perm.refl _
  have hmode : CycleMode s0 pending [] [] [] := CycleMode.empty rfl (by simp) rfl
  obtain ⟨done, hprogress', hmode'⟩ :=
    resolveFrom_spec hmoves hS halias hrun hprogress hmode (by simp) hne
  refine ⟨⟨done, hprogress'⟩, ?_⟩
  cases hmode' with
  | empty _ _ closed => exact closed
  | idle above root stack_eq => simp at stack_eq
  | found above mid cycleBegin root stack_eq => simp at stack_eq
  | broken above root stack_eq => simp at stack_eq

end

theorem addOrderedMove_isSome (hgrow : ∀ n, canGrow n = true) (ordered : List MoveOp) (m : MoveOp)
    : (addOrderedMove floatAliases canGrow ordered m).isSome = true := by
  unfold addOrderedMove
  rw [if_pos (hgrow _)]
  split
  . rfl
  . split <;> rfl

theorem resolve_isSome (hgrow : ∀ n, canGrow n = true) (pending : List MoveOp)
    : (resolve floatAliases canGrow pending).isSome = true := by
  have htraverse : ∀ (rootType : MoveOp.Type) (pending stack ordered : List MoveOp) (cur : Nat),
      (traverse floatAliases canGrow rootType pending stack ordered cur).isSome = true := by
    intro rootType pending stack ordered cur
    fun_induction traverse floatAliases canGrow rootType pending stack ordered cur with
    | case1 => rfl
    | case2 => assumption
    | case3 => assumption
    | case4 => assumption
    | case5 _ ordered _ last _ _ hadd =>
      have := @addOrderedMove_isSome floatAliases _ hgrow ordered last
      rw [hadd] at this
      contradiction
  unfold resolve
  generalize ([] : List MoveOp) = ordered
  generalize 0 = numCycles
  fun_induction resolveFrom floatAliases canGrow pending ordered numCycles with
  | case1 => rfl
  | case2 => assumption
  | case3 pending ordered _ pm _ hnone =>
    have := htraverse pm.type pending.dropLast [pm] ordered 0
    rw [hnone] at this
    contradiction

theorem aliases_self (hself : ∀ code, floatAliases code code = true) (op : MoveOperand)
    : op.aliases floatAliases op = true := by
  cases op with
  | floatReg code => exact hself code
  | reg _ => simp [MoveOperand.aliases]
  | regPair _ => simp [MoveOperand.aliases]
  | memory _ _ => simp [MoveOperand.aliases]
  | effectiveAddress _ _ => simp [MoveOperand.aliases]

theorem resolve_new_spec {moves : List (MoveOperand × MoveOperand × MoveOp.Type)}
    (hdistinct : (moves.map (fun m => m.2.1)).Nodup) (hne : ∀ m ∈ moves, m.1 ≠ m.2.1)
    (hself : ∀ code, floatAliases code code = true) (halias : ∀ a ∈ moves.flatMap (fun m => [m.1, m.2.1]),
      ∀ b ∈ moves.flatMap (fun m => [m.1, m.2.1]), a.aliases floatAliases b = true → a = b)
    (hrun : resolve floatAliases canGrow (moves.map fun m => MoveOp.new m.1 m.2.1 m.2.2) = some (ordered, numCycles))
    (s : Machine V)
    : (∃ done, Progress (moves.map fun m => (m.1, m.2.1)) s [] [] ordered done) ∧
      ordered.foldlM cycleStep none = some none := by
  let S : Set MoveOperand := {l | l ∈ moves.flatMap (fun m => [m.1, m.2.1])}
  have heq : ∀ a ∈ S, ∀ b ∈ S, a.aliases floatAliases b = true ↔ a = b := by
    intro a ha b hb
    constructor
    . exact halias a ha b hb
    intro hab
    rw [hab]
    exact aliases_self hself b
  apply resolve_spec _ _ heq hrun s
  . rw [map_map]
    rfl
  . intro m hm
    obtain ⟨m', _, rfl⟩ := mem_map.mp hm
    exact new_isPlain _ _ _
  . intro m hm
    obtain ⟨m', hm', rfl⟩ := mem_map.mp hm
    exact hne m' hm'
  . rw [map_map]
    exact hdistinct
  . intro m hm
    obtain ⟨m', hm', rfl⟩ := mem_map.mp hm
    constructor
    . exact mem_flatMap.mpr ⟨m', hm', by simp⟩
    . exact mem_flatMap.mpr ⟨m', hm', by simp⟩

/--
Running the resolved moves one after the other does what the pending moves do in parallel, and their
cycles do not nest.
-/
theorem resolve_parallel (moves : List (MoveOperand × MoveOperand × MoveOp.Type))
    (hdistinct : (moves.map (fun m => m.2.1)).Nodup) (hne : ∀ m ∈ moves, m.1 ≠ m.2.1)
    (hself : ∀ code, floatAliases code code = true) (halias : ∀ a ∈ moves.flatMap (fun m => [m.1, m.2.1]),
      ∀ b ∈ moves.flatMap (fun m => [m.1, m.2.1]), a.aliases floatAliases b = true → a = b)
    : (∀ ordered numCycles, resolve floatAliases canGrow (moves.map fun m => MoveOp.new m.1 m.2.1 m.2.2)
          = some (ordered, numCycles) → (∀ s : Machine V, (∀ m ∈ moves, (execAll ordered s).loc m.2.1 = s.loc m.1) ∧
            (∀ l, (∀ m ∈ moves, l ≠ m.2.1) → (execAll ordered s).loc l = s.loc l)) ∧
          ordered.foldlM cycleStep none = some none)
      ∧
      ((∀ n, canGrow n = true)
        → (resolve floatAliases canGrow (moves.map fun m => MoveOp.new m.1 m.2.1 m.2.2)).isSome) := by
  refine ⟨?_, fun hgrow => resolve_isSome hgrow _⟩
  intro ordered numCycles hrun
  have hdests : ((moves.map fun m => (m.1, m.2.1)).map Prod.snd).Nodup := by
    rw [map_map]
    exact hdistinct
  constructor
  . intro s
    obtain ⟨done, hprogress⟩ := (resolve_new_spec hdistinct hne hself halias hrun s).1
    have hperm : done.Perm (moves.map fun m => (m.1, m.2.1)) := by simpa using hprogress.perm
    rw [hprogress.loc_eq]
    constructor
    . intro m hm
      have hmem : (m.1, m.2.1) ∈ done := hperm.mem_iff.mpr (mem_map_of_mem hm)
      have hnodup := (hperm.map Prod.snd).nodup_iff.mpr hdests
      exact assign_of_mem s.loc hnodup hmem
    intro l hl
    apply assign_of_not_mem
    rw [(hperm.map Prod.snd).mem_iff]
    intro hmem
    simp only [map_map, mem_map, comp_apply] at hmem
    obtain ⟨m, hm, heq⟩ := hmem
    exact hl m hm heq.symm
  . let s : Machine Unit := ⟨fun _ => (), fun _ => ()⟩
    exact (resolve_new_spec hdistinct hne hself halias hrun s).2

theorem resolve_parallel_swap
    : ∃ ordered numCycles, resolve (fun a b => a == b) (fun _ => true)
            [MoveOp.new (.reg 0) (.reg 1) .general, MoveOp.new (.reg 1) (.reg 0) .general]
          = some (ordered, numCycles) ∧
        (∀ s : Machine Nat, (execAll ordered s).loc (.reg 1) = s.loc (.reg 0) ∧
          (execAll ordered s).loc (.reg 0) = s.loc (.reg 1)) ∧
        ordered.foldlM cycleStep none = some none := by
  have hresolve := @resolve_parallel Nat (fun a b => a == b) (fun _ => true)
    [(.reg 0, .reg 1, .general), (.reg 1, .reg 0, .general)]
    (by decide) (by decide) (by simp) (by decide)
  obtain ⟨⟨ordered, numCycles⟩, hrun⟩ := Option.isSome_iff_exists.mp (hresolve.2 (by simp))
  obtain ⟨hexec, hcycles⟩ := hresolve.1 ordered numCycles hrun
  refine ⟨ordered, numCycles, hrun, ?_, hcycles⟩
  intro s
  exact ⟨(hexec s).1 (.reg 0, .reg 1, .general) (by simp), (hexec s).1 (.reg 1, .reg 0, .general) (by simp)⟩

end MoveResolver
end SpiderMonkey
