import SpiderMonkey.Jit.Lemmas.MoveResolver

/-!
This module contains the proof that sorting the memory to memory moves ends and keeps the effect of the moves.
-/

namespace SpiderMonkey

open List

namespace MoveOp

/--
The same moves in another order, with the same effect and the same cycles.
-/
structure Reordered (moves moves' : List MoveOp) : Prop where
  perm : moves ~ moves'
  execAll_eq : ∀ {V : Type} (s : Machine V), execAll moves s = execAll moves' s
  cycles_eq : ∀ openSlot, moves.foldlM cycleStep openSlot = moves'.foldlM cycleStep openSlot

theorem Reordered.refl (moves : List MoveOp) : Reordered moves moves :=
  ⟨.refl _, fun _ => rfl, fun _ => rfl⟩

theorem Reordered.symm (h : Reordered moves moves') : Reordered moves' moves :=
  ⟨h.perm.symm, fun s => (h.execAll_eq s).symm, fun openSlot => (h.cycles_eq openSlot).symm⟩

theorem Reordered.trans (h : Reordered moves moves') (h' : Reordered moves' moves'')
    : Reordered moves moves'' :=
  ⟨h.perm.trans h'.perm, fun s => (h.execAll_eq s).trans (h'.execAll_eq s),
    fun openSlot => (h.cycles_eq openSlot).trans (h'.cycles_eq openSlot)⟩

-- A move that a search of the sort passes.
structure Passes (floatAliases : Nat → Nat → Bool) (m base : MoveOp) : Prop where
  not_aliases : m.aliases floatAliases base = false
  plain : m.IsPlain

variable {floatAliases : Nat → Nat → Bool} (hself : ∀ code, floatAliases code code = true)

include hself

theorem ne_of_not_aliases {op other : MoveOperand} (h : op.aliases floatAliases other = false)
    : op ≠ other := by
  intro heq
  rw [heq, MoveResolver.aliases_self hself] at h
  contradiction

theorem Passes.exec_comm {base m : MoveOp} (h : m.Passes floatAliases base) {V : Type} (s : Machine V)
    : base.exec (m.exec s) = m.exec (base.exec s) := by
  have hnot := h.not_aliases
  unfold MoveOp.aliases at hnot
  simp only [Bool.or_eq_false_iff] at hnot
  apply MoveOp.exec_comm h.plain
  . exact (ne_of_not_aliases hself hnot.1.2).symm
  . exact (ne_of_not_aliases hself hnot.2.2).symm
  . exact (ne_of_not_aliases hself hnot.2.1).symm

/--
A move may be carried out before moves that the search passes instead of after them.
-/
theorem reordered_shift {base : MoveOp} (pre post : List MoveOp) (h : ∀ m ∈ mid, m.Passes floatAliases base)
    : Reordered (pre ++ mid ++ base :: post) (pre ++ base :: (mid ++ post)) := by
  constructor
  . rw [append_assoc]
    apply Perm.append_left
    exact perm_middle
  . intro V s
    have hmid (s : Machine V) : execAll (mid ++ [base]) s = execAll (base :: mid) s := by
      induction mid generalizing s with
      | nil => rfl
      | cons m mid ih =>
        have hmid := ih (fun m' hm' => h m' (mem_cons_of_mem m hm')) (m.exec s)
        have hm := (h m mem_cons_self).exec_comm hself s
        simp only [execAll, cons_append, foldl_cons, foldl_append] at hmid ⊢
        rw [hmid, hm]
    have hleft : pre ++ mid ++ base :: post = pre ++ ((mid ++ [base]) ++ post) := by simp
    have hright : pre ++ base :: (mid ++ post) = pre ++ ((base :: mid) ++ post) := by simp
    rw [hleft, hright]
    simp only [execAll_append (mid ++ [base]), execAll_append (base :: mid), execAll_append pre, hmid]
  . intro openSlot
    have hplain : ∀ m ∈ mid, m.IsPlain := fun m hm => (h m hm).plain
    have hfirst : pre ++ base :: (mid ++ post) = pre ++ [base] ++ mid ++ post := by simp
    have hsecond : pre ++ mid ++ base :: post = (pre ++ mid) ++ ([base] ++ post) := by simp
    rw [hfirst, hsecond, foldlM_append, foldlM_append (l := pre ++ [base] ++ mid), foldlM_append_plain _ hplain,
      foldlM_append_plain _ hplain, ← foldlM_append, ← foldlM_append, append_assoc]

end MoveOp

namespace MoveResolver

open MoveOp

variable {mid : List MoveOp} {base : MoveOp}

theorem copyBack_eq (pre mid post : List MoveOp) (x : MoveOp)
    : ∃ y, copyBack (pre ++ x :: (mid ++ post)) pre.length mid.length = some (pre ++ mid ++ y :: post) := by
  induction mid generalizing pre x with
  | nil =>
    refine ⟨x, ?_⟩
    simp [copyBack]
  | cons m mid ih =>
    obtain ⟨y, hy⟩ := ih (pre ++ [m]) m
    refine ⟨y, ?_⟩
    have hnext : (pre ++ x :: (m :: mid ++ post))[pre.length + 1]? = some m := by simp
    rw [length_cons, copyBack, hnext, some_bind, set_append_right _ _ (le_refl pre.length), Nat.sub_self]
    simpa using hy

theorem copyOn_eq (pre mid post : List MoveOp) (x : MoveOp)
    : ∃ y, copyOn (pre ++ (mid ++ x :: post)) (pre.length + mid.length) mid.length
        = some (pre ++ y :: (mid ++ post)) := by
  induction mid using List.reverseRecOn generalizing post x with
  | nil =>
    refine ⟨x, ?_⟩
    simp [copyOn]
  | append_singleton mid m ih =>
    obtain ⟨y, hy⟩ := ih (m :: post) m
    refine ⟨y, ?_⟩
    have hprevious : (pre ++ (mid ++ [m] ++ x :: post))[pre.length + mid.length]? = some m := by simp
    rw [length_append, length_singleton, copyOn, ← Nat.add_assoc, Nat.add_sub_cancel, hprevious, some_bind]
    simpa [set_append_right, Nat.add_assoc, Nat.add_sub_cancel_left] using hy

theorem reorderMove_earlier (pre post : List MoveOp) (base : MoveOp) (hmid : mid ≠ [])
    : reorderMove (pre ++ mid ++ base :: post) (pre.length + mid.length) pre.length
        = some (pre ++ base :: (mid ++ post)) := by
  have hpos := length_pos_iff.mpr hmid
  obtain ⟨y, hy⟩ := copyOn_eq pre mid post base
  have hop : (pre ++ (mid ++ base :: post))[pre.length + mid.length]? = some base := by simp
  rw [reorderMove, append_assoc, if_neg (by omega), hop, some_bind, if_neg (by omega), Nat.add_sub_cancel_left, hy]
  simp

theorem reorderMove_later (pre post : List MoveOp) (base : MoveOp) (hmid : mid ≠ [])
    : reorderMove (pre ++ base :: (mid ++ post)) pre.length (pre.length + mid.length)
        = some (pre ++ mid ++ base :: post) := by
  have hpos := length_pos_iff.mpr hmid
  obtain ⟨y, hy⟩ := copyBack_eq pre mid post base
  have hop : (pre ++ base :: (mid ++ post))[pre.length]? = some base := by simp
  rw [reorderMove, if_neg (by omega), hop, some_bind, if_pos (by omega), Nat.add_sub_cancel_left, hy]
  simp

variable {floatAliases : Nat → Nat → Bool}

theorem passes_of_not_stops {m : MoveOp}
    (h : ¬ (m.aliases floatAliases base || m.isCycleBegin || m.isCycleEnd) = true)
    : m.Passes floatAliases base := by
  simp only [Bool.or_eq_true, not_or, Bool.not_eq_true] at h
  exact ⟨h.1.1, h.1.2, h.2⟩

theorem findEarlier_eq_some (h : findEarlier floatAliases base earlier = some between)
    : ∃ passed rest, earlier = passed ++ rest ∧ passed.length = between + 1
        ∧ ∀ m ∈ passed, m.Passes floatAliases base := by
  induction earlier generalizing between with
  | nil => cases h
  | cons previous earlier ih =>
    rw [findEarlier] at h
    split at h
    . cases h
    next hstops =>
      have hprevious := passes_of_not_stops hstops
      split at h
      . cases h
        refine ⟨[previous], earlier, rfl, rfl, ?_⟩
        simpa using hprevious
      obtain ⟨between, hbetween, rfl⟩ := Option.map_eq_some_iff.mp h
      obtain ⟨passed, rest, rfl, hlength, hpassed⟩ := ih hbetween
      refine ⟨previous :: passed, rest, rfl, by rw [length_cons, hlength], ?_⟩
      exact forall_mem_cons.mpr ⟨hprevious, hpassed⟩

theorem findLater_eq_some {skippedRegisterUse : Bool}
    (h : findLater floatAliases base skippedRegisterUse later = some between)
    : ∃ passed clobber rest, later = passed ++ clobber :: rest ∧ passed.length = between
        ∧ (∀ m ∈ clobber :: passed, m.Passes floatAliases base)
        ∧ (∀ m ∈ passed, m.to_.isGeneralReg = false) ∧ clobber.to_.isGeneralReg = true
        ∧ (passed = [] → skippedRegisterUse = true) := by
  induction later generalizing between skippedRegisterUse with
  | nil => cases h
  | cons m later ih =>
    rw [findLater] at h
    split at h
    . cases h
    next hstops =>
      have hm := passes_of_not_stops hstops
      split at h
      next hreg =>
        split at h
        next hskipped =>
          cases h
          refine ⟨[], m, later, rfl, rfl, ?_, forall_mem_nil _, hreg, fun _ => hskipped⟩
          simpa using hm
        . cases h
      next hnot =>
        obtain ⟨between, hbetween, rfl⟩ := Option.map_eq_some_iff.mp h
        obtain ⟨passed, clobber, rest, rfl, rfl, hpassed, hregs, hclobber, -⟩ := ih hbetween
        refine ⟨m :: passed, clobber, rest, rfl, rfl, ?_, ?_, hclobber, ?_⟩
        . simp only [mem_cons, forall_eq_or_imp] at hpassed ⊢
          exact ⟨hpassed.1, hm, hpassed.2⟩
        . exact forall_mem_cons.mpr ⟨Bool.eq_false_iff.mpr hnot, hregs⟩
        . intro hnil
          cases hnil

-- How far the next clobbered register is after a position, which a shift to a later position brings nearer.
def clobberDistance (i : Nat) (orderedMoves : List MoveOp) : Nat :=
  (orderedMoves.drop (i + 1)).findIdx fun m => m.to_.isGeneralReg

def roundsLeft (i : Nat) (orderedMoves : List MoveOp) : Nat :=
  (orderedMoves.length - i) * (orderedMoves.length + 1) + clobberDistance i orderedMoves

theorem roundsLeft_next {i : Nat} {moves moves' : List MoveOp} (hi : i < moves.length)
    (hlength : moves'.length = moves.length) : roundsLeft (i + 1) moves' < roundsLeft i moves := by
  have hdistance : clobberDistance (i + 1) moves' ≤ moves.length := by
    apply le_trans findIdx_le_length
    rw [length_drop, hlength]
    omega
  have hleft : moves.length - i = moves.length - (i + 1) + 1 := by omega
  rw [roundsLeft, roundsLeft, hlength, hleft, Nat.add_mul, Nat.one_mul]
  omega

theorem clobberDistance_eq {i : Nat} {clobber : MoveOp} {moves passed : List MoveOp} (rest : List MoveOp)
    (heq : moves.drop (i + 1) = passed ++ clobber :: rest) (hregs : ∀ m ∈ passed, m.to_.isGeneralReg = false)
    (hclobber : clobber.to_.isGeneralReg = true) : clobberDistance i moves = passed.length := by
  have hnone : passed.findIdx (fun m => m.to_.isGeneralReg) = passed.length := findIdx_eq_length.mpr hregs
  rw [clobberDistance, heq, findIdx_append, hnone, if_neg (Nat.lt_irrefl _), findIdx_cons, hclobber]
  exact Nat.zero_add _

theorem roundsLeft_again (pre rest : List MoveOp) (base : MoveOp) (hne : passed ≠ [])
    (hregs : ∀ m ∈ passed, m.to_.isGeneralReg = false) (hclobber : clobber.to_.isGeneralReg = true)
    : roundsLeft pre.length (pre ++ (passed ++ [clobber]) ++ base :: rest)
        < roundsLeft pre.length (pre ++ base :: (passed ++ [clobber] ++ rest)) := by
  obtain ⟨m, passed, rfl⟩ := exists_cons_of_ne_nil hne
  have hafter : clobberDistance pre.length (pre ++ (m :: passed ++ [clobber]) ++ base :: rest) = passed.length := by
    refine clobberDistance_eq (base :: rest) ?_ (forall_mem_cons.mp hregs).2 hclobber
    simp [drop_append]
  have hbefore : clobberDistance pre.length (pre ++ base :: (m :: passed ++ [clobber] ++ rest))
      = (m :: passed).length := by
    refine clobberDistance_eq rest ?_ hregs hclobber
    simp [drop_append]
  rw [roundsLeft, roundsLeft, hafter, hbefore, length_cons]
  simp only [length_append, length_cons, length_nil]
  grind

theorem sortMove_spec (hself : ∀ code, floatAliases code code = true) {i : Nat} {moves : List MoveOp}
    (hbase : moves[i]? = some base)
    : ∃ i' moves', sortMove floatAliases base i moves = some (i', moves') ∧ Reordered moves moves'
        ∧ roundsLeft i' moves' < roundsLeft i moves := by
  obtain ⟨hi, hget⟩ := List.getElem?_eq_some_iff.mp hbase
  have hsplit : moves = moves.take i ++ base :: moves.drop (i + 1) := by
    rw [← hget, ← drop_eq_getElem_cons hi, take_append_drop]
  have hlength : (moves.take i).length = i := length_take_of_le hi.le
  have hskip : ∃ i' moves', some (i + 1, moves) = some (i', moves') ∧ Reordered moves moves'
      ∧ roundsLeft i' moves' < roundsLeft i moves :=
    ⟨i + 1, moves, rfl, .refl moves, roundsLeft_next hi rfl⟩
  rw [sortMove]
  split
  . exact hskip
  split
  . exact hskip
  split
  next between hearlier =>
    obtain ⟨passed, rest, htake, hpassed, hpasses⟩ := findEarlier_eq_some hearlier
    have htake : moves.take i = rest.reverse ++ passed.reverse := by
      rw [← reverse_append, ← htake, reverse_reverse]
    have hne : passed.reverse ≠ [] := by
      rw [← length_pos_iff, length_reverse]
      omega
    have hreorder := reorderMove_earlier rest.reverse (moves.drop (i + 1)) base hne
    have hpasses : ∀ m ∈ passed.reverse, m.Passes floatAliases base := by simpa using hpasses
    have hshift := reordered_shift hself rest.reverse (moves.drop (i + 1)) hpasses
    rw [htake, length_append, length_reverse, length_reverse] at hlength
    rw [length_reverse, length_reverse, hlength, ← htake, ← hsplit] at hreorder
    rw [← htake, ← hsplit] at hshift
    have htarget : i - 1 - between = rest.length := by omega
    rw [htarget, hreorder]
    exact ⟨_, _, rfl, hshift, roundsLeft_next hi hshift.perm.length_eq.symm⟩
  split
  next between hlater =>
    obtain ⟨passed, clobber, rest, hdrop, rfl, hpasses, hregs, hclobber, hskipped⟩ := findLater_eq_some hlater
    have hne : passed ≠ [] := by
      intro hnil
      have := hskipped hnil
      contradiction
    have hmid : passed ++ [clobber] ≠ [] := by simp
    have hpasses : ∀ m ∈ passed ++ [clobber], m.Passes floatAliases base := by
      simpa [or_imp, forall_and, and_comm] using hpasses
    have hreorder := reorderMove_later (moves.take i) rest base hmid
    have hshift := reordered_shift hself (moves.take i) rest hpasses
    have hagain := roundsLeft_again (moves.take i) rest base hne hregs hclobber
    have hmoves : moves.take i ++ base :: (passed ++ [clobber] ++ rest) = moves := by
      rw [append_assoc, singleton_append, ← hdrop, ← hsplit]
    rw [hlength, length_append, length_singleton, hmoves] at hreorder
    rw [hlength, hmoves] at hagain
    rw [hmoves] at hshift
    have htarget : i + 1 + passed.length = i + (passed.length + 1) := by omega
    rw [htarget, hreorder]
    exact ⟨_, _, rfl, hshift.symm, hagain⟩
  . exact hskip

theorem sortFrom_spec (hself : ∀ code, floatAliases code code = true) (i : Nat) (moves : List MoveOp)
    : ∃ sorted, Reordered moves sorted ∧
        ∀ rounds, roundsLeft i moves < rounds → sortFrom floatAliases rounds i moves = some sorted := by
  induction hn : roundsLeft i moves using Nat.strongRecOn generalizing i moves with
  | ind n ih =>
    subst hn
    cases hbase : moves[i]? with
    | none =>
      refine ⟨moves, .refl moves, fun rounds hrounds => ?_⟩
      obtain ⟨rounds, rfl⟩ := Nat.exists_eq_add_one_of_ne_zero (Nat.ne_zero_of_lt hrounds)
      rw [sortFrom, hbase]
    | some base =>
      obtain ⟨i', moves', hmove, hmoves, hless⟩ := sortMove_spec hself hbase
      obtain ⟨sorted, hsorted, hrun⟩ := ih _ hless i' moves' rfl
      refine ⟨sorted, hmoves.trans hsorted, fun rounds hrounds => ?_⟩
      obtain ⟨rounds, rfl⟩ := Nat.exists_eq_add_one_of_ne_zero (Nat.ne_zero_of_lt hrounds)
      rw [sortFrom, hbase]
      simp only [hmove, some_bind]
      exact hrun rounds (by omega)

theorem sortMemoryToMemoryMoves_spec (hself : ∀ code, floatAliases code code = true) (moves : List MoveOp)
    : ∃ sorted, Reordered moves sorted ∧
        ∃ needed, ∀ rounds ≥ needed, sortMemoryToMemoryMoves floatAliases rounds moves = some sorted := by
  obtain ⟨sorted, hsorted, hrun⟩ := sortFrom_spec hself 0 moves
  exact ⟨sorted, hsorted, roundsLeft 0 moves + 1, hrun⟩

end MoveResolver

end SpiderMonkey
