import SpiderMonkey.Jit.Impl.MoveEmitter
import SpiderMonkey.Jit.Lemmas.SortMoves

/-!
This module shows that the moves that are sorted and emitted after they are resolved keep their effect.
-/

namespace SpiderMonkey

open List Function

namespace MoveEmitterX86

open MoveOp

-- The locations, whose values are words, and the slot that breaks a cycle.
structure State (w : Nat) where
  loc : MoveOperand → BitVec w
  cycleSlot : BitVec w

def exchange (x y : MoveOperand) (loc : MoveOperand → V) : MoveOperand → V :=
  update (update loc x (loc y)) y (loc x)

def Instr.exec (instr : Instr) (s : State w) : State w :=
  match instr with
  | .move source target _ => { s with loc := update s.loc target (s.loc source) }
  | .breakCycle target _ => { s with cycleSlot := s.loc target }
  | .completeCycle target _ => { s with loc := update s.loc target s.cycleSlot }
  | .xchg lhs rhs => { s with loc := exchange (.reg lhs) (.reg rhs) s.loc }
  | .vxorpd src1 src0 dest =>
    { s with loc := update s.loc (.floatReg dest) (s.loc (.floatReg src0) ^^^ s.loc (.floatReg src1)) }

def run (code : List Instr) (s : State w) : State w := code.foldl (fun s instr => instr.exec s) s

theorem run_append (code code' : List Instr) (s : State w) : run (code ++ code') s = run code' (run code s) := by
  simp [run]

-- The exchanges of each destination with the next one, which carry the value of the first to the last.
def exchangeAll (count : Nat) (moves : List MoveOp) (loc : MoveOperand → V) : MoveOperand → V :=
  match count, moves with
  | count + 1, move :: next :: rest => exchangeAll count (next :: rest) (exchange move.to_ next.to_ loc)
  | _, _ => loc

/--
The next moves of a broken cycle, up to the one that completes it after `count` others: each reads the destination of
the next one.
-/
inductive Completes (slot : Int) : Nat → List MoveOp → Prop where
  | last {move : MoveOp} {rest : List MoveOp} (is_end : move.isCycleEnd = true) (not_begin : move.isCycleBegin = false)
    (slot_eq : move.cycleEndSlot = slot) : Completes slot 0 (move :: rest)
  | step {count : Nat} {move next : MoveOp} {rest : List MoveOp} (plain : move.IsPlain) (reads : move.from_ = next.to_)
    (completes : Completes slot count (next :: rest)) : Completes slot (count + 1) (move :: next :: rest)

/--
The moves that complete a cycle exchange their destinations, where the first one holds the value of the slot.
-/
theorem Completes.exchangeAll_eq {slot : Int} {count : Nat} {moves : List MoveOp} (h : Completes slot count moves)
    (hnodup : (moves.map MoveOp.to_).Nodup) (s : Machine V) {move : MoveOp} (hmove : moves.head? = some move)
    : exchangeAll count moves (update s.loc move.to_ (s.slot slot)) = (execAll (moves.take (count + 1)) s).loc := by
  induction h generalizing s move with
  | last is_end not_begin slot_eq =>
    cases hmove
    simp [execAll, MoveOp.exec, exchangeAll, is_end, not_begin, slot_eq]
  | @step count first next rest plain reads completes ih =>
    cases hmove
    rw [map_cons, nodup_cons] at hnodup
    have hne : next.to_ ≠ first.to_ := by
      intro heq
      apply hnodup.1
      simp [heq]
    have hexchange : exchange first.to_ next.to_ (update s.loc first.to_ (s.slot slot))
        = update (first.exec s).loc next.to_ ((first.exec s).slot slot) := by
      rw [exec_plain plain, exchange, update_of_ne hne, update_self, update_idem, reads]
    rw [exchangeAll, hexchange, ih hnodup.2 (first.exec s) rfl]
    rfl

theorem asReg_eq_some {op : MoveOperand} : op.asReg = some code ↔ op = .reg code := by
  cases op <;> simp [MoveOperand.asReg]

theorem exists_reg {op : MoveOperand} (h : op.isGeneralReg = true) : ∃ code, op = .reg code := by
  cases op <;> simp [MoveOperand.isGeneralReg] at h ⊢

theorem exists_floatReg {op : MoveOperand} (h : op.isFloatReg = true) : ∃ code, op = .floatReg code := by
  cases op <;> simp [MoveOperand.isFloatReg] at h ⊢

theorem asFloatReg_eq_some {op : MoveOperand} : op.asFloatReg = some code ↔ op = .floatReg code := by
  cases op <;> simp [MoveOperand.asFloatReg]

theorem run_emitSwaps {count : Nat} {moves : List MoveOp} {code : List Instr} (h : emitSwaps count moves = some code)
    (s : State w) : (run code s).loc = exchangeAll count moves s.loc := by
  fun_induction emitSwaps count moves generalizing code s with
  | case1 moves =>
    cases h
    cases moves <;> rfl
  | case2 count move next rest ih =>
    obtain ⟨lhs, hlhs, h⟩ := bind_eq_some.mp h
    obtain ⟨rhs, hrhs, h⟩ := bind_eq_some.mp h
    obtain ⟨swaps, hswaps, rfl⟩ := Option.map_eq_some_iff.mp h
    rw [exchangeAll, asReg_eq_some.mp hlhs, asReg_eq_some.mp hrhs]
    exact ih hswaps ((Instr.xchg lhs rhs).exec s)
  | case3 => cases h

-- The three exclusive ors of two different registers exchange them.
theorem run_emitXorSwap {moves : List MoveOp} {code : List Instr} (hnodup : (moves.map MoveOp.to_).Nodup)
    (h : emitXorSwap moves = some code) (s : State w) : (run code s).loc = exchangeAll 1 moves s.loc := by
  rw [emitXorSwap.eq_def] at h
  split at h
  next move next rest =>
    obtain ⟨a, ha, h⟩ := bind_eq_some.mp h
    obtain ⟨b, hb, h⟩ := bind_eq_some.mp h
    cases h
    rw [asFloatReg_eq_some] at ha hb
    have hne : move.to_ ≠ next.to_ := by
      intro heq
      simp [heq] at hnodup
    rw [ha, hb] at hne
    have hfirst (x y : BitVec w) : x ^^^ (y ^^^ x) = y := by
      rw [BitVec.xor_comm y, ← BitVec.xor_assoc, BitVec.xor_self, BitVec.zero_xor]
    have hlast (x y : BitVec w) : y ^^^ x ^^^ y = x := by
      rw [BitVec.xor_comm (y ^^^ x), BitVec.xor_comm y x, hfirst]
    simp only [exchangeAll, exchange, ha, hb, run, foldl_cons, foldl_nil, Instr.exec, update_self,
      update_of_ne hne, update_of_ne hne.symm, hfirst, hlast]
    rw [update_comm hne.symm, update_idem, update_comm hne]
  next => cases h

theorem emitXorSwap_isSome {move next : MoveOp} (rest : List MoveOp) (hmove : move.to_.isFloatReg = true)
    (hnext : next.to_.isFloatReg = true) : (emitXorSwap (move :: next :: rest)).isSome = true := by
  obtain ⟨a, ha⟩ := exists_floatReg hmove
  obtain ⟨b, hb⟩ := exists_floatReg hnext
  rw [emitXorSwap, asFloatReg_eq_some.mpr ha, asFloatReg_eq_some.mpr hb]
  rfl

theorem emitSwaps_isSome {count : Nat} {moves : List MoveOp} (hlength : count < moves.length)
    (hregs : ∀ m ∈ moves.take (count + 1), m.to_.isGeneralReg = true) : (emitSwaps count moves).isSome = true := by
  fun_induction emitSwaps count moves with
  | case1 => rfl
  | case2 count move next rest ih =>
    obtain ⟨hmove, hrest⟩ := forall_mem_cons.mp hregs
    obtain ⟨lhs, hlhs⟩ := exists_reg hmove
    obtain ⟨rhs, hrhs⟩ := exists_reg (hrest next mem_cons_self)
    obtain ⟨swaps, hswaps⟩ := Option.isSome_iff_exists.mp (ih (Nat.lt_of_succ_lt_succ hlength) hrest)
    rw [asReg_eq_some.mpr hlhs, asReg_eq_some.mpr hrhs, hswaps]
    rfl
  | case3 count moves hzero htwo =>
    obtain ⟨count, rfl⟩ := Nat.exists_eq_add_one_of_ne_zero hzero
    match moves with
    | [] => simp at hlength
    | [_] => simp at hlength
    | move :: next :: rest => exact (htwo count move next rest rfl rfl).elim

theorem Completes.lt_length {slot : Int} {count : Nat} {moves : List MoveOp} (h : Completes slot count moves)
    : count < moves.length := by
  induction h with
  | last => exact Nat.zero_lt_succ _
  | step _ _ _ ih => exact Nat.succ_lt_succ ih

theorem Completes.closed {slot : Int} {count : Nat} {moves : List MoveOp} (h : Completes slot count moves)
    : moves.foldlM cycleStep (some slot) = (moves.drop (count + 1)).foldlM cycleStep none := by
  induction h with
  | last is_end not_begin slot_eq =>
    rw [foldlM_cons, cycleStep.eq_def, is_end, not_begin]
    simp [slot_eq]
  | step plain reads completes ih =>
    rw [foldlM_cons, cycleStep_plain plain, some_bind, ih]
    rfl

theorem cycleStep_cases {move : MoveOp} (h : cycleStep openSlot move = some openSlot')
    : (move.IsPlain ∧ openSlot' = openSlot)
        ∨ (move.isCycleBegin = true ∧ move.isCycleEnd = false ∧ openSlot = none ∧ openSlot' = some move.cycleBeginSlot)
        ∨ (move.isCycleEnd = true ∧ move.isCycleBegin = false ∧ openSlot = some move.cycleEndSlot
          ∧ openSlot' = none) := by
  unfold cycleStep at h
  split at h
  next hbegin hend =>
    cases h
    exact .inl ⟨⟨hbegin, hend⟩, rfl⟩
  next hbegin hend =>
    cases h
    exact .inr (.inl ⟨hbegin, hend, rfl, rfl⟩)
  next hbegin hend =>
    split at h
    next hslot =>
      cases h
      rw [hslot]
      exact .inr (.inr ⟨hend, hbegin, rfl, rfl⟩)
    next => cases h
  next => cases h

-- The loop never reads past the last move, as the cycle is complete before.
theorem characterizeFrom_spec {slot : Int} {allGeneralRegs allFloatRegs : Bool} {swapCount : Nat} {moves : List MoveOp}
    (hcycle : moves.foldlM cycleStep (some slot) = some none)
    : ∃ cycle, characterizeFrom false allGeneralRegs allFloatRegs swapCount moves = some cycle
        ∧ ∀ total, cycle.swapCount = some total → ∃ count, total = swapCount + count ∧ Completes slot count moves
          ∧ (cycle.allGeneralRegs = true →
            allGeneralRegs = true ∧ ∀ m ∈ moves.take (count + 1), m.to_.isGeneralReg = true)
          ∧ (cycle.allFloatRegs = true →
            allFloatRegs = true ∧ ∀ m ∈ moves.take (count + 1), m.to_.isFloatReg = true) := by
  induction moves generalizing allGeneralRegs allFloatRegs swapCount with
  | nil => cases hcycle
  | cons move rest ih =>
    rw [foldlM_cons, bind_eq_some] at hcycle
    obtain ⟨openSlot, hstep, hrest⟩ := hcycle
    rw [characterizeFrom.eq_def]
    dsimp only
    split
    . exact ⟨_, rfl, fun total h => by cases h⟩
    rcases cycleStep_cases hstep with ⟨hplain, rfl⟩ | ⟨-, -, hnone, -⟩ | ⟨hend, hbegin, hslot, -⟩
    . rw [hplain.not_end, if_neg (by simp)]
      match rest, hrest with
      | next :: rest, hrest =>
        dsimp only
        split
        . exact ⟨_, rfl, fun total h => by cases h⟩
        next hreads =>
          rw [not_not] at hreads
          obtain ⟨cycle, hrun, hcompletes⟩ := ih hrest
          refine ⟨cycle, hrun, fun total htotal => ?_⟩
          obtain ⟨count, rfl, hcount, hgeneral, hfloat⟩ := hcompletes total htotal
          refine ⟨count + 1, by omega, .step hplain hreads hcount, ?_, ?_⟩
          . intro hall
            obtain ⟨hregs, hrest⟩ := hgeneral hall
            rw [Bool.and_eq_true] at hregs
            exact ⟨hregs.1, forall_mem_cons.mpr ⟨hregs.2, hrest⟩⟩
          intro hall
          obtain ⟨hregs, hrest⟩ := hfloat hall
          rw [Bool.and_eq_true] at hregs
          exact ⟨hregs.1, forall_mem_cons.mpr ⟨hregs.2, hrest⟩⟩
    . cases hnone
    . rw [hend, if_pos (by simp)]
      cases hslot
      refine ⟨_, rfl, fun total htotal => ?_⟩
      cases htotal
      refine ⟨0, rfl, .last hend hbegin rfl, ?_, ?_⟩
      . intro hall
        rw [Bool.and_eq_true] at hall
        simpa using hall
      . intro hall
        rw [Bool.and_eq_true] at hall
        simpa using hall

/--
The first moves begin a cycle and complete it, after as many others as `total`.
-/
structure IsCycle (total : Nat) (first next : MoveOp) (rest : List MoveOp) : Prop where
  is_begin : first.isCycleBegin = true
  not_end : first.isCycleEnd = false
  reads : first.from_ = next.to_
  completes : ∃ count, total = count + 1 ∧ Completes first.cycleBeginSlot count (next :: rest)

theorem IsCycle.exchangeAll_eq {first next : MoveOp} {rest : List MoveOp} (h : IsCycle total first next rest)
    (hnodup : ((first :: next :: rest).map MoveOp.to_).Nodup) (s : Machine V)
    : exchangeAll total (first :: next :: rest) s.loc
        = (execAll ((first :: next :: rest).take (total + 1)) s).loc := by
  obtain ⟨count, rfl, hcompletes⟩ := h.completes
  rw [map_cons, nodup_cons] at hnodup
  have hexchange : exchange first.to_ next.to_ s.loc
      = update (first.exec s).loc next.to_ ((first.exec s).slot first.cycleBeginSlot) := by
    simp [exchange, MoveOp.exec, h.is_begin, h.not_end, h.reads]
  rw [exchangeAll, hexchange, hcompletes.exchangeAll_eq hnodup.2 (first.exec s) rfl]
  rfl

theorem characterizeCycle_spec {first : MoveOp} {rest : List MoveOp} (hbegin : first.isCycleBegin = true)
    (hcycle : (first :: rest).foldlM cycleStep none = some none)
    : ∃ cycle, characterizeCycle (first :: rest) = some cycle
        ∧ ∀ total, cycle.swapCount = some total → ∃ next post, rest = next :: post ∧ IsCycle total first next post
          ∧ (cycle.allGeneralRegs = true → ∀ m ∈ (first :: rest).take (total + 1), m.to_.isGeneralReg = true)
          ∧ (cycle.allFloatRegs = true → ∀ m ∈ (first :: rest).take (total + 1), m.to_.isFloatReg = true) := by
  rw [foldlM_cons, bind_eq_some] at hcycle
  obtain ⟨openSlot, hstep, hrest⟩ := hcycle
  rcases cycleStep_cases hstep with ⟨hplain, -⟩ | ⟨-, hend, -, rfl⟩ | ⟨-, hnot, -, -⟩
  . rw [hplain.not_begin] at hbegin
    cases hbegin
  . match rest, hrest with
    | next :: rest, hrest =>
      rw [characterizeCycle, characterizeFrom.eq_def]
      dsimp only
      split
      . exact ⟨_, rfl, fun total h => by cases h⟩
      rw [Bool.not_true, Bool.false_and, if_neg Bool.false_ne_true]
      split
      . exact ⟨_, rfl, fun total h => by cases h⟩
      next hreads =>
        rw [not_not] at hreads
        obtain ⟨cycle, hrun, hcompletes⟩ := characterizeFrom_spec hrest
        rw [hrun, some_bind]
        cases htotal : cycle.swapCount with
        | none =>
          refine ⟨cycle, rfl, fun total h => ?_⟩
          rw [htotal] at h
          cases h
        | some total =>
          obtain ⟨count, rfl, hcount, hgeneral, hfloat⟩ := hcompletes total htotal
          have hlength := hcount.lt_length
          rw [Nat.add_comm] at htotal ⊢
          obtain ⟨last, hlast⟩ : ∃ last, (first :: next :: rest)[count + 1]? = some last :=
            ⟨_, getElem?_eq_getElem (Nat.succ_lt_succ hlength)⟩
          dsimp only
          rw [hlast, some_bind]
          dsimp only [getElem?_cons_zero, some_bind]
          split
          . exact ⟨_, rfl, fun total h => by cases h⟩
          refine ⟨cycle, rfl, fun total h => ?_⟩
          rw [htotal] at h
          cases h
          refine ⟨next, rest, rfl, ⟨hbegin, hend, hreads, count, rfl, hcount⟩, ?_, ?_⟩
          . intro hall
            obtain ⟨hregs, hrest⟩ := hgeneral hall
            exact forall_mem_cons.mpr ⟨hregs, hrest⟩
          . intro hall
            obtain ⟨hregs, hrest⟩ := hfloat hall
            exact forall_mem_cons.mpr ⟨hregs, hrest⟩
  . rw [hnot] at hbegin
    cases hbegin

/--
Where a cycle is optimized, its instructions do what its moves do through the slot.
-/
theorem maybeEmitOptimizedCycle_spec {first : MoveOp} {rest : List MoveOp} (hbegin : first.isCycleBegin = true)
    (hcycle : (first :: rest).foldlM cycleStep none = some none) (hnodup : ((first :: rest).map MoveOp.to_).Nodup)
    : ∃ cycle emitted, characterizeCycle (first :: rest) = some cycle
        ∧ maybeEmitOptimizedCycle (first :: rest) cycle = some emitted
        ∧ ∀ swaps, emitted = some swaps → ∃ total, cycle.swapCount = some total
          ∧ (rest.drop total).foldlM cycleStep none = some none
          ∧ ∀ {w : Nat} (s : Machine (BitVec w)) (t : State w), t.loc = s.loc →
            (run swaps t).loc = (execAll ((first :: rest).take (total + 1)) s).loc := by
  obtain ⟨cycle, hcharacterize, hspec⟩ := characterizeCycle_spec hbegin hcycle
  cases htotal : cycle.swapCount with
  | none =>
    refine ⟨cycle, none, hcharacterize, ?_, fun swaps h => by cases h⟩
    rw [maybeEmitOptimizedCycle, htotal]
  | some total =>
    obtain ⟨next, post, rfl, hiscycle, hgeneral, hfloat⟩ := hspec total htotal
    have hclosed : ((next :: post).drop total).foldlM cycleStep none = some none := by
      obtain ⟨count, rfl, hcompletes⟩ := hiscycle.completes
      have hstep : cycleStep none first = some (some first.cycleBeginSlot) := by
        rw [cycleStep.eq_def, hiscycle.is_begin, hiscycle.not_end]
      rw [foldlM_cons, hstep, some_bind, hcompletes.closed] at hcycle
      exact hcycle
    suffices hemit : ∃ emitted, maybeEmitOptimizedCycle (first :: next :: post) cycle = some emitted
        ∧ ∀ swaps, emitted = some swaps →
          ∀ {w : Nat} (t : State w), (run swaps t).loc = exchangeAll total (first :: next :: post) t.loc by
      obtain ⟨emitted, hemitted, hswaps⟩ := hemit
      refine ⟨cycle, emitted, hcharacterize, hemitted, fun swaps heq => ⟨total, htotal, hclosed, ?_⟩⟩
      intro w s t hloc
      rw [hswaps swaps heq, hloc, hiscycle.exchangeAll_eq hnodup]
    rw [maybeEmitOptimizedCycle.eq_def, htotal]
    dsimp only
    split
    next hregs =>
      rw [Bool.and_eq_true] at hregs
      have hlength : total < (first :: next :: post).length := by
        obtain ⟨count, rfl, hcompletes⟩ := hiscycle.completes
        exact Nat.succ_lt_succ hcompletes.lt_length
      obtain ⟨swaps, hswaps⟩ := Option.isSome_iff_exists.mp (emitSwaps_isSome hlength (hgeneral hregs.1))
      refine ⟨some swaps, by rw [hswaps]; rfl, ?_⟩
      rintro _ ⟨⟩ w t
      exact run_emitSwaps hswaps t
    split
    next hregs =>
      rw [Bool.and_eq_true, beq_iff_eq] at hregs
      obtain ⟨hall, rfl⟩ := hregs
      obtain ⟨hfirst, hrest⟩ := forall_mem_cons.mp (hfloat hall)
      obtain ⟨swaps, hswaps⟩ := Option.isSome_iff_exists.mp
        (emitXorSwap_isSome post hfirst (hrest next mem_cons_self))
      refine ⟨some swaps, by rw [hswaps]; rfl, ?_⟩
      rintro _ ⟨⟩ w t
      exact run_emitXorSwap hnodup hswaps t
    . exact ⟨none, rfl, fun swaps h => by cases h⟩

/--
The emitted code does what the moves do, where it is in a cycle with the value of the slot.
-/
theorem emitFrom_spec (moves : List MoveOp) (openSlot : Option Int) (hnodup : (moves.map MoveOp.to_).Nodup)
    (hcycles : moves.foldlM cycleStep openSlot = some none)
    : ∃ code, emitFrom openSlot.isSome moves = some code
        ∧ ∀ {w : Nat} (s : Machine (BitVec w)) (t : State w), t.loc = s.loc →
          (∀ slot, openSlot = some slot → t.cycleSlot = s.slot slot) →
            (run code t).loc = (execAll moves s).loc := by
  induction hlength : moves.length using Nat.strongRecOn generalizing moves openSlot with
  | ind n ih =>
    subst hlength
    cases moves with
    | nil =>
      cases hcycles
      rw [emitFrom]
      exact ⟨[], rfl, fun s t hloc _ => hloc⟩
    | cons move rest =>
      have hall := hcycles
      rw [foldlM_cons, bind_eq_some] at hcycles
      obtain ⟨openSlot', hstep, hrest⟩ := hcycles
      have hnodup' := (nodup_cons.mp hnodup).2
      obtain ⟨code, hcode, heffect⟩ := ih rest.length (Nat.lt_succ_self _) rest openSlot' hnodup' hrest rfl
      rw [emitFrom]
      rcases cycleStep_cases hstep with ⟨hplain, rfl⟩ | ⟨hbegin, hend, rfl, rfl⟩ | ⟨hend, hbegin, rfl, rfl⟩
      . rw [hplain.not_end, hplain.not_begin, if_neg Bool.false_ne_true, if_neg Bool.false_ne_true, hcode]
        refine ⟨_, rfl, fun s t hloc hslot => ?_⟩
        apply heffect (move.exec s)
        . rw [exec_plain hplain]
          simp [Instr.exec, hloc]
        . intro slot hopen
          rw [exec_plain hplain]
          exact hslot slot hopen
      . rw [hend, hbegin, if_neg Bool.false_ne_true, if_pos rfl, Option.isSome_none, if_neg Bool.false_ne_true]
        obtain ⟨cycle, emitted, hcharacterize, hemitted, hswaps⟩ := maybeEmitOptimizedCycle_spec hbegin hall hnodup
        rw [hcharacterize, some_bind, hemitted, some_bind]
        cases emitted with
        | none =>
          dsimp only
          rw [Option.isSome_some] at hcode
          rw [hcode]
          refine ⟨_, rfl, fun s t hloc _ => ?_⟩
          apply heffect (move.exec s)
          . simp [Instr.exec, MoveOp.exec, hend, hloc]
          . rintro slot ⟨⟩
            simp [Instr.exec, MoveOp.exec, hbegin, hloc]
        | some swaps =>
          obtain ⟨total, htotal, hclosed, hcycle⟩ := hswaps swaps rfl
          obtain ⟨code, hcode, heffect⟩ := ih (rest.drop total).length
            (by rw [length_cons, length_drop]; omega) (rest.drop total) none
            (hnodup'.sublist ((drop_sublist ..).map _)) hclosed rfl
          rw [Option.isSome_none] at hcode
          simp only [htotal, Option.getD_some, hcode]
          refine ⟨_, rfl, fun s t hloc _ => ?_⟩
          have hsplit : move :: rest = (move :: rest).take (total + 1) ++ rest.drop total := by simp
          rw [hsplit, execAll_append, run_append]
          apply heffect
          . exact hcycle s t hloc
          . rintro slot ⟨⟩
      . rw [hend, if_pos rfl, Option.isSome_some, if_pos rfl]
        rw [Option.isSome_none] at hcode
        rw [hcode]
        refine ⟨_, rfl, fun s t hloc hslot => ?_⟩
        apply heffect (move.exec s)
        . simp [Instr.exec, MoveOp.exec, hend, hbegin, hloc, hslot _ rfl]
        . rintro slot ⟨⟩

end MoveEmitterX86

namespace MoveResolver

open MoveOp

variable {floatAliases : Nat → Nat → Bool} {canGrow : Nat → Bool}

theorem shareSource_destinations {move : MoveOp} (h : shareSource floatAliases move rev = some shared)
    : (shared.map MoveOp.to_) ~ (move.to_ :: rev.map MoveOp.to_) := by
  induction rev generalizing shared with
  | nil => cases h
  | cons existing earlier ih =>
    unfold shareSource at h
    split at h
    . cases h
      rfl
    split at h
    . cases h
      exact .swap ..
    split at h
    . cases h
    . obtain ⟨shared', hshared', rfl⟩ := Option.map_eq_some_iff.mp h
      exact ((ih hshared').cons existing.to_).trans (.swap ..)

theorem addOrderedMove_destinations {move : MoveOp}
    (h : addOrderedMove floatAliases canGrow ordered move = some ordered')
    : (ordered'.map MoveOp.to_) ~ (move.to_ :: ordered.map MoveOp.to_) := by
  have happend : ((ordered ++ [move]).map MoveOp.to_) ~ (move.to_ :: ordered.map MoveOp.to_) := by
    rw [map_append]
    exact perm_append_singleton ..
  unfold addOrderedMove at h
  split at h
  . split at h
    . cases h
      exact happend
    split at h
    next shared hshared =>
      cases h
      rw [map_reverse]
      apply (reverse_perm _).trans ((shareSource_destinations hshared).trans _)
      rw [map_reverse]
      exact (reverse_perm _).cons move.to_
    next =>
      cases h
      exact happend
  . cases h

theorem traverse_destinations {rootType : MoveOp.Type} {res : List MoveOp × List MoveOp × Nat}
    (h : traverse floatAliases canGrow rootType pending stack ordered curCycles = some res)
    : (res.2.1.map MoveOp.to_ ++ res.1.map MoveOp.to_)
        ~ (ordered.map MoveOp.to_ ++ (stack.map MoveOp.to_ ++ pending.map MoveOp.to_)) := by
  fun_induction traverse floatAliases canGrow rootType pending stack ordered curCycles with
  | case1 =>
    cases h
    rfl
  | case2 pending ordered curCycles last rest blocking hblocking hcycled ih =>
    have hstack : (blocking.setCycleBegin rootType curCycles ::
        setCycleEnds floatAliases (last :: rest) blocking curCycles).map MoveOp.to_
          = blocking.to_ :: (last :: rest).map MoveOp.to_ := by
      rw [setCycleEnds, map_cons, map_map]
      congr 1
      apply map_congr_left
      intro m _
      rw [comp_apply]
      split <;> rfl
    apply (ih h).trans (Perm.append_left _ _)
    rw [hstack]
    exact perm_middle.symm.trans (((Lists.find?_eraseP_perm hblocking).map MoveOp.to_).append_left _)
  | case3 pending ordered curCycles last rest blocking hblocking hnot ih =>
    apply (ih h).trans (Perm.append_left _ _)
    exact perm_middle.symm.trans (((Lists.find?_eraseP_perm hblocking).map MoveOp.to_).append_left _)
  | case4 pending ordered curCycles last rest hblocking ordered' hadd ih =>
    apply (ih h).trans
    exact ((addOrderedMove_destinations hadd).append_right _).trans perm_middle.symm
  | case5 => cases h

theorem resolveFrom_destinations (h : resolveFrom floatAliases canGrow pending ordered numCycles = some res)
    : (res.1.map MoveOp.to_) ~ (ordered.map MoveOp.to_ ++ pending.map MoveOp.to_) := by
  fun_induction resolveFrom floatAliases canGrow pending ordered numCycles with
  | case1 pending ordered numCycles hlast =>
    cases h
    rw [getLast?_eq_none_iff.mp hlast]
    simp
  | case2 pending ordered numCycles pm hlast remaining ordered' curCycles htraverse ih =>
    apply (ih h).trans ((traverse_destinations htraverse).trans (Perm.append_left _ _))
    conv => rhs; rw [← dropLast_append_getLast? pm hlast, map_append]
    exact perm_append_comm
  | case3 => cases h

theorem resolve_destinations (h : resolve floatAliases canGrow pending = some (ordered, numCycles))
    : (ordered.map MoveOp.to_) ~ (pending.map MoveOp.to_) := by
  simpa using resolveFrom_destinations h

end MoveResolver

namespace MoveEmitterX86

open MoveOp MoveResolver

/--
Emitting the moves succeeds, and the code does what the moves do one after the other. So do the instructions of each
optimized cycle instead of the moves of the cycle.
-/
structure Emits (moves : List MoveOp) : Prop where
  code : ∃ code, emit moves = some code ∧
    ∀ {w : Nat} (s : Machine (BitVec w)) (t : State w), t.loc = s.loc → (run code t).loc = (execAll moves s).loc
  optimized : ∀ i first, moves[i]? = some first → first.isCycleBegin = true →
    ∃ cycle emitted, characterizeCycle (moves.drop i) = some cycle
      ∧ maybeEmitOptimizedCycle (moves.drop i) cycle = some emitted
      ∧ ∀ swaps, emitted = some swaps → ∃ swapCount, cycle.swapCount = some swapCount
        ∧ ∀ {w : Nat} (s : Machine (BitVec w)) (t : State w), t.loc = s.loc →
          (run swaps t).loc = (execAll ((moves.drop i).take (swapCount + 1)) s).loc

theorem emits_of_cycles {moves : List MoveOp} (hnodup : (moves.map MoveOp.to_).Nodup)
    (hcycles : moves.foldlM cycleStep none = some none) : Emits moves := by
  constructor
  . obtain ⟨code, hcode, heffect⟩ := emitFrom_spec moves none hnodup hcycles
    refine ⟨code, hcode, fun s t hloc => heffect s t hloc ?_⟩
    rintro slot ⟨⟩
  intro i first hfirst hbegin
  obtain ⟨hi, hget⟩ := List.getElem?_eq_some_iff.mp hfirst
  have hdrop : moves.drop i = first :: moves.drop (i + 1) := by
    rw [← hget, drop_eq_getElem_cons hi]
  have hcycle : (first :: moves.drop (i + 1)).foldlM cycleStep none = some none := by
    rw [← take_append_drop i moves, foldlM_append, bind_eq_some, hdrop] at hcycles
    obtain ⟨openSlot, -, hrest⟩ := hcycles
    -- No cycle begins in another one.
    have hclosed : openSlot = none := by
      rw [foldlM_cons, bind_eq_some] at hrest
      obtain ⟨openSlot', hstep, -⟩ := hrest
      rcases cycleStep_cases hstep with ⟨hplain, -⟩ | ⟨-, -, hnone, -⟩ | ⟨-, hnot, -⟩
      . rw [hplain.not_begin] at hbegin
        cases hbegin
      . exact hnone
      . rw [hnot] at hbegin
        cases hbegin
    rw [hclosed] at hrest
    exact hrest
  rw [hdrop]
  obtain ⟨cycle, emitted, hcharacterize, hemitted, hswaps⟩ := maybeEmitOptimizedCycle_spec hbegin hcycle
    (hdrop ▸ hnodup.sublist ((drop_sublist ..).map _))
  refine ⟨cycle, emitted, hcharacterize, hemitted, fun swaps heq => ?_⟩
  obtain ⟨total, htotal, -, heffect⟩ := hswaps swaps heq
  exact ⟨total, htotal, heffect⟩

/--
Sorting the resolved moves ends and keeps their effect, and the moves are emitted with their effect, sorted or not.
-/
theorem sort_emits {floatAliases : Nat → Nat → Bool} {canGrow : Nat → Bool}
    (moves : List (MoveOperand × MoveOperand × MoveOp.Type))
    (hdistinct : (moves.map (fun m => m.2.1)).Nodup) (hne : ∀ m ∈ moves, m.1 ≠ m.2.1)
    (hself : ∀ code, floatAliases code code = true)
    (halias : ∀ a ∈ moves.flatMap (fun m => [m.1, m.2.1]),
      ∀ b ∈ moves.flatMap (fun m => [m.1, m.2.1]), a.aliases floatAliases b = true → a = b)
    {ordered : List MoveOp} {numCycles : Nat}
    (hrun : resolve floatAliases canGrow (moves.map fun m => MoveOp.new m.1 m.2.1 m.2.2) = some (ordered, numCycles))
    : ∃ sorted, (∃ needed, ∀ rounds ≥ needed, sortMemoryToMemoryMoves floatAliases rounds ordered = some sorted)
        ∧ (∀ {V : Type} (s : Machine V), execAll sorted s = execAll ordered s)
        ∧ Emits ordered ∧ Emits sorted := by
  obtain ⟨sorted, hsorted, hneeded⟩ := sortMemoryToMemoryMoves_spec hself ordered
  have hcycles : ordered.foldlM cycleStep none = some none :=
    (resolve_new_spec hdistinct hne hself halias hrun (⟨fun _ => (), fun _ => ()⟩ : Machine Unit)).2
  have hnodup : (ordered.map MoveOp.to_).Nodup := by
    rw [(resolve_destinations hrun).nodup_iff, map_map]
    exact hdistinct
  refine ⟨sorted, hneeded, fun s => (hsorted.execAll_eq s).symm, emits_of_cycles hnodup hcycles, ?_⟩
  apply emits_of_cycles
  . exact (hsorted.perm.map MoveOp.to_).nodup_iff.mp hnodup
  . rw [← hsorted.cycles_eq]
    exact hcycles

-- Two registers that are exchanged, and a move between two memory locations.
theorem sort_emits_swap
    : ∃ ordered numCycles sorted,
        resolve (fun a b => a == b) (fun _ => true) [MoveOp.new (.reg 0) (.reg 1) .general,
            MoveOp.new (.reg 1) (.reg 0) .general, MoveOp.new (.memory 4 0) (.memory 4 8) .general]
          = some (ordered, numCycles)
        ∧ (∃ needed, ∀ rounds ≥ needed, sortMemoryToMemoryMoves (fun a b => a == b) rounds ordered = some sorted)
        ∧ (∀ {V : Type} (s : Machine V), execAll sorted s = execAll ordered s)
        ∧ Emits ordered ∧ Emits sorted := by
  obtain ⟨⟨ordered, numCycles⟩, hrun⟩ := Option.isSome_iff_exists.mp
    (@resolve_isSome (fun a b => a == b) (fun _ => true) (fun _ => rfl) [MoveOp.new (.reg 0) (.reg 1) .general,
      MoveOp.new (.reg 1) (.reg 0) .general, MoveOp.new (.memory 4 0) (.memory 4 8) .general])
  obtain ⟨sorted, hsorted⟩ := sort_emits
    [(.reg 0, .reg 1, .general), (.reg 1, .reg 0, .general), (.memory 4 0, .memory 4 8, .general)]
    (by decide) (by decide) (by simp) (by decide) hrun
  exact ⟨ordered, numCycles, sorted, hrun, hsorted⟩

end MoveEmitterX86

end SpiderMonkey
