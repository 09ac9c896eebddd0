import SpiderMonkey.Jit.Impl.MoveResolver

/-!
This module contains the emission of ordered moves for x86, with the optimized cycles of registers. The scratch
registers that a move between two memory locations needs are left out.
-/

namespace SpiderMonkey

def MoveOperand.asReg (op : MoveOperand) : Option Nat :=
  match op with
  | .reg code => some code
  | _ => none

def MoveOperand.asFloatReg (op : MoveOperand) : Option Nat :=
  match op with
  | .floatReg code => some code
  | _ => none

namespace MoveEmitterX86

inductive Instr where
  | move (source target : MoveOperand) (type : MoveOp.Type)
  | breakCycle (target : MoveOperand) (type : MoveOp.Type)
  | completeCycle (target : MoveOperand) (type : MoveOp.Type)
  | xchg (lhs rhs : Nat)
  | vxorpd (src1 src0 dest : Nat)
deriving DecidableEq, Repr

-- What `characterizeCycle` finds out. A swap count of -1 is none.
structure Cycle where
  allGeneralRegs : Bool
  allFloatRegs : Bool
  swapCount : Option Nat
deriving DecidableEq, Repr

-- The loop of `characterizeCycle`, with the moves from the position `j`. A read past the last move is none.
def characterizeFrom (isFirst allGeneralRegs allFloatRegs : Bool) (swapCount : Nat) (moves : List MoveOp)
    : Option Cycle :=
  match moves with
  | [] => none
  | move :: rest =>
    let allGeneralRegs := allGeneralRegs && move.to_.isGeneralReg
    let allFloatRegs := allFloatRegs && move.to_.isFloatReg
    if !allGeneralRegs && !allFloatRegs then
      some ⟨false, false, none⟩
    else if !isFirst && move.isCycleEnd then
      some ⟨allGeneralRegs, allFloatRegs, some swapCount⟩
    else
      match rest with
      | [] => none
      | next :: rest =>
        if move.from_ ≠ next.to_ then
          some ⟨false, false, none⟩
        else
          characterizeFrom false allGeneralRegs allFloatRegs (swapCount + 1) (next :: rest)

def characterizeCycle (moves : List MoveOp) : Option Cycle := do
  let cycle ← characterizeFrom true true true 0 moves
  match cycle.swapCount with
  | none => some cycle
  | some swapCount =>
    let move ← moves[swapCount]?
    let first ← moves[0]?
    if move.from_ ≠ first.to_ then some ⟨false, false, none⟩ else some cycle

def emitSwaps (swapCount : Nat) (moves : List MoveOp) : Option (List Instr) :=
  match swapCount, moves with
  | 0, _ => some []
  | swapCount + 1, move :: next :: rest => do
    let lhs ← move.to_.asReg
    let rhs ← next.to_.asReg
    (emitSwaps swapCount (next :: rest)).map fun swaps => .xchg lhs rhs :: swaps
  | _, _ => none

def emitXorSwap (moves : List MoveOp) : Option (List Instr) :=
  match moves with
  | move :: next :: _ => do
    let a ← move.to_.asFloatReg
    let b ← next.to_.asFloatReg
    some [.vxorpd a b b, .vxorpd b a a, .vxorpd a b b]
  | _ => none

-- Returns no instructions where the cycle is not optimized.
def maybeEmitOptimizedCycle (moves : List MoveOp) (cycle : Cycle) : Option (Option (List Instr)) :=
  match cycle.swapCount with
  | none => some none
  | some swapCount =>
    if cycle.allGeneralRegs && swapCount ≤ 2 then
      (emitSwaps swapCount moves).map some
    else if cycle.allFloatRegs && swapCount == 1 then
      (emitXorSwap moves).map some
    else
      some none

-- The loop of `emit` over the moves that are left. A failed assertion is none.
def emitFrom (inCycle : Bool) (moves : List MoveOp) : Option (List Instr) :=
  match moves with
  | [] => if inCycle then none else some []
  | move :: rest =>
    let emitMove : Instr := .move move.from_ move.to_ move.type
    if move.isCycleEnd then
      if inCycle then
        (emitFrom false rest).map fun code => .completeCycle move.to_ move.type :: code
      else
        none
    else if move.isCycleBegin then
      if inCycle then
        none
      else do
        let cycle ← characterizeCycle (move :: rest)
        match ← maybeEmitOptimizedCycle (move :: rest) cycle with
        | some swaps => (emitFrom false (rest.drop (cycle.swapCount.getD 0))).map fun code => swaps ++ code
        | none =>
          (emitFrom true rest).map fun code => .breakCycle move.to_ move.endCycleType :: emitMove :: code
    else
      (emitFrom inCycle rest).map fun code => emitMove :: code
termination_by moves.length
decreasing_by
  all_goals
    simp only [List.length_cons, List.length_drop]
    omega

def emit (moves : List MoveOp) : Option (List Instr) := emitFrom false moves

end MoveEmitterX86

end SpiderMonkey
