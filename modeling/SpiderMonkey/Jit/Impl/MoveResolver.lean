import Mathlib.Data.Int.NatAbs

/-!
This module contains the resolution of parallel moves into a sequence of moves.
-/

namespace SpiderMonkey

inductive MoveOperand where
  | reg (code : Nat)
  | regPair (code : Nat)
  | floatReg (code : Nat)
  | memory (base : Nat) (disp : Int)
  | effectiveAddress (base : Nat) (disp : Int)
deriving DecidableEq, Repr

namespace MoveOperand

def isGeneralReg (op : MoveOperand) : Bool :=
  match op with
  | .reg _ => true
  | _ => false

def isFloatReg (op : MoveOperand) : Bool :=
  match op with
  | .floatReg _ => true
  | _ => false

def isMemory (op : MoveOperand) : Bool :=
  match op with
  | .memory _ _ => true
  | _ => false

def aliases (floatAliases : Nat → Nat → Bool) (op other : MoveOperand) : Bool :=
  match op, other with
  | .regPair even, .regPair otherEven => even == otherEven
  | .regPair even, .reg code => even == code || even + 1 == code
  | .reg code, .regPair even => even == code || even + 1 == code
  | .regPair _, _ => false
  | _, .regPair _ => false
  | .floatReg code, .floatReg otherCode => floatAliases code otherCode
  | op, other => op == other

end MoveOperand

inductive MoveOp.Type where
  | general
  | int32
  | float32
  | double
  | simd128
deriving DecidableEq, Repr

structure MoveOp where
  from_ : MoveOperand
  to_ : MoveOperand
  type : MoveOp.Type
  isCycleBegin : Bool
  isCycleEnd : Bool
  cycleBeginSlot : Int
  cycleEndSlot : Int
  endCycleType : MoveOp.Type
deriving DecidableEq, Repr

namespace MoveOp

def new (from_ to_ : MoveOperand) (type : MoveOp.Type) : MoveOp :=
  ⟨from_, to_, type, false, false, -1, -1, .general⟩

def setCycleBegin (m : MoveOp) (endCycleType : MoveOp.Type) (cycleSlot : Int) : MoveOp :=
  { m with
      isCycleBegin := true
      cycleBeginSlot := cycleSlot
      endCycleType := endCycleType }

def setCycleEnd (m : MoveOp) (cycleSlot : Int) : MoveOp :=
  { m with
      isCycleEnd := true
      cycleEndSlot := cycleSlot }

def aliases (floatAliases : Nat → Nat → Bool) (m other : MoveOp) : Bool :=
  m.from_.aliases floatAliases other.from_ || m.to_.aliases floatAliases other.from_
    || (m.from_.aliases floatAliases other.to_ || m.to_.aliases floatAliases other.to_)

end MoveOp

namespace MoveResolver

-- The two loops of `reorderMove`, which copy the moves between the two positions one place back or on.
def copyBack (orderedMoves : List MoveOp) (i count : Nat) : Option (List MoveOp) :=
  match count with
  | 0 => some orderedMoves
  | count + 1 => do
    let next ← orderedMoves[i + 1]?
    copyBack (orderedMoves.set i next) (i + 1) count

def copyOn (orderedMoves : List MoveOp) (i count : Nat) : Option (List MoveOp) :=
  match count with
  | 0 => some orderedMoves
  | count + 1 => do
    let previous ← orderedMoves[i - 1]?
    copyOn (orderedMoves.set i previous) (i - 1) count

-- A failed assertion and a position outside of the moves are none.
def reorderMove (orderedMoves : List MoveOp) (source target : Nat) : Option (List MoveOp) :=
  if source = target then
    none
  else do
    let op ← orderedMoves[source]?
    let shifted :=
      if source < target then
        copyBack orderedMoves source (target - source)
      else
        copyOn orderedMoves source (source - target)
    shifted.map fun shifted => shifted.set target op

section

-- `canGrow n` tells whether the allocation for `n` ordered moves succeeds.
variable (floatAliases : Nat → Nat → Bool) (canGrow : Nat → Bool)

-- The loop of `addOrderedMove` over the earlier moves, last one first. Returns the moves in the
-- same order with `move` among them, unless no move shares the source with it.
def shareSource (move : MoveOp) (orderedMoves : List MoveOp) : Option (List MoveOp) :=
  match orderedMoves with
  | [] => none
  | existing :: earlier =>
    if existing.from_ = move.from_ ∧ existing.to_.aliases floatAliases move.to_ = false
        ∧ existing.type = move.type ∧ existing.isCycleBegin = false
        ∧ existing.isCycleEnd = false
        ∧ (existing.to_.isGeneralReg || existing.to_.isFloatReg) = true then
      some (MoveOp.new existing.to_ move.to_ move.type :: existing :: earlier)
    else if existing.from_ = move.from_ ∧ existing.to_.aliases floatAliases move.to_ = false
        ∧ existing.type = move.type ∧ existing.isCycleBegin = false
        ∧ existing.isCycleEnd = false
        ∧ (move.to_.isGeneralReg || move.to_.isFloatReg) = true then
      some (MoveOp.new move.to_ existing.to_ move.type :: move :: earlier)
    else if existing.aliases floatAliases move then
      none
    else
      (shareSource move earlier).map (fun earlier => existing :: earlier)

def addOrderedMove (orderedMoves : List MoveOp) (move : MoveOp) : Option (List MoveOp) :=
  if canGrow (orderedMoves.length + 1) then
    if move.from_.isMemory = false ∨ move.isCycleBegin ∨ move.isCycleEnd then
      some (orderedMoves ++ [move])
    else
      match shareSource floatAliases move orderedMoves.reverse with
      | some shared => some shared.reverse
      | none => some (orderedMoves ++ [move])
  else
    none

def findBlockingMove (pending : List MoveOp) (last : MoveOp) : Option MoveOp :=
  pending.find? (fun other => other.from_.aliases floatAliases last.to_)

def removeBlockingMove (pending : List MoveOp) (last : MoveOp) : List MoveOp :=
  pending.eraseP (fun other => other.from_.aliases floatAliases last.to_)

theorem removeBlockingMove_length {pending : List MoveOp} {last blocking : MoveOp}
    (h : findBlockingMove floatAliases pending last = some blocking)
    : (removeBlockingMove floatAliases pending last).length + 1 = pending.length := by
  have hmem := List.mem_of_find?_eq_some h
  unfold removeBlockingMove
  rw [List.length_eraseP_of_mem hmem (List.find?_some h)]
  have := List.length_pos_of_mem hmem
  omega

def hasCycledMove (stack : List MoveOp) (blocking : MoveOp) : Bool :=
  stack.any (fun other => other.from_.aliases floatAliases blocking.to_)

def setCycleEnds (stack : List MoveOp) (blocking : MoveOp) (cycleSlot : Int) : List MoveOp :=
  stack.map (fun other =>
    if other.from_.aliases floatAliases blocking.to_ then other.setCycleEnd cycleSlot else other)

-- The inner loop of `resolve`, which ends when the traversal stack, with its top first, is empty.
-- Returns the moves that are left pending, the ordered moves and `curCycles_`.
def traverse (rootType : MoveOp.Type) (pending stack orderedMoves : List MoveOp) (curCycles : Nat)
    : Option (List MoveOp × List MoveOp × Nat) :=
  match stack with
  | [] => some (pending, orderedMoves, curCycles)
  | last :: rest =>
    match _h : findBlockingMove floatAliases pending last with
    | some blocking =>
      if hasCycledMove floatAliases (last :: rest) blocking then
        traverse rootType (removeBlockingMove floatAliases pending last)
          (blocking.setCycleBegin rootType curCycles :: setCycleEnds floatAliases (last :: rest) blocking curCycles)
          orderedMoves (curCycles + 1)
      else
        traverse rootType (removeBlockingMove floatAliases pending last)
          (blocking :: last :: rest) orderedMoves curCycles
    | none =>
      match addOrderedMove floatAliases canGrow orderedMoves last with
      | some orderedMoves => traverse rootType pending rest orderedMoves curCycles
      | none => none
termination_by 2 * pending.length + stack.length
decreasing_by
  . have := removeBlockingMove_length floatAliases _h
    simp only [setCycleEnds, List.length_cons, List.length_map]
    omega
  . have := removeBlockingMove_length floatAliases _h
    simp only [List.length_cons]
    omega
  . simp only [List.length_cons]
    omega

theorem traverse_length_le {pending stack orderedMoves : List MoveOp}
    (h : traverse floatAliases canGrow rootType pending stack orderedMoves curCycles = some res)
    : res.1.length ≤ pending.length := by
  fun_induction traverse floatAliases canGrow rootType pending stack orderedMoves curCycles with
  | case1 => cases h; exact Nat.le_refl _
  | case2 _ _ _ _ _ _ hblocking _ ih =>
    have := removeBlockingMove_length floatAliases hblocking
    have := ih h
    omega
  | case3 _ _ _ _ _ _ hblocking _ ih =>
    have := removeBlockingMove_length floatAliases hblocking
    have := ih h
    omega
  | case4 _ _ _ _ _ _ _ _ ih => exact ih h
  | case5 => cases h

def resolveFrom (pending orderedMoves : List MoveOp) (numCycles : Nat)
    : Option (List MoveOp × Nat) :=
  match _hlast : pending.getLast? with
  | none => some (orderedMoves, numCycles)
  | some pm =>
    match _h : traverse floatAliases canGrow pm.type pending.dropLast [pm] orderedMoves 0 with
    | some (remaining, orderedMoves, curCycles) =>
      resolveFrom remaining orderedMoves (max numCycles curCycles)
    | none => none
termination_by pending.length
decreasing_by
  have hle := traverse_length_le floatAliases canGrow _h
  have hpos := List.length_pos_of_mem (List.mem_of_getLast? _hlast)
  simp only [List.length_dropLast] at hle
  omega

def resolve (pending : List MoveOp) : Option (List MoveOp × Nat) :=
  resolveFrom floatAliases canGrow pending [] 0

-- The search for an earlier move that clobbers a register, over the earlier moves, last one first. Returns how many
-- moves are between.
def findEarlier (base : MoveOp) : List MoveOp → Option Nat
  | [] => none
  | previous :: earlier =>
    if previous.aliases floatAliases base || previous.isCycleBegin || previous.isCycleEnd then
      none
    else if previous.to_.isGeneralReg then
      some 0
    else
      (findEarlier base earlier).map (· + 1)

-- The search for a later one, which shifts nothing where no move between uses a register.
def findLater (base : MoveOp) (skippedRegisterUse : Bool) : List MoveOp → Option Nat
  | [] => none
  | later :: rest =>
    if later.aliases floatAliases base || later.isCycleBegin || later.isCycleEnd then
      none
    else if later.to_.isGeneralReg then
      if skippedRegisterUse then some 0 else none
    else
      (findLater base (skippedRegisterUse || later.from_.isGeneralReg) rest).map (· + 1)

-- One round of the loop of `sortMemoryToMemoryMoves`, with the move at the position `i`. Returns the next position.
def sortMove (base : MoveOp) (i : Nat) (orderedMoves : List MoveOp) : Option (Nat × List MoveOp) :=
  if !base.from_.isMemory || !base.to_.isMemory then
    some (i + 1, orderedMoves)
  else if base.type ≠ .general ∧ base.type ≠ .int32 then
    some (i + 1, orderedMoves)
  else
    match findEarlier floatAliases base (orderedMoves.take i).reverse with
    | some between => (reorderMove orderedMoves i (i - 1 - between)).map fun orderedMoves => (i + 1, orderedMoves)
    | none =>
      match findLater floatAliases base false (orderedMoves.drop (i + 1)) with
      | some between => (reorderMove orderedMoves i (i + 1 + between)).map fun orderedMoves => (i, orderedMoves)
      | none => some (i + 1, orderedMoves)

-- The loop from the position `i`, which gives up after `rounds` rounds.
def sortFrom (rounds i : Nat) (orderedMoves : List MoveOp) : Option (List MoveOp) :=
  match rounds with
  | 0 => none
  | rounds + 1 =>
    match orderedMoves[i]? with
    | none => some orderedMoves
    | some base => do
      let (i, orderedMoves) ← sortMove floatAliases base i orderedMoves
      sortFrom rounds i orderedMoves

def sortMemoryToMemoryMoves (rounds : Nat) (orderedMoves : List MoveOp) : Option (List MoveOp) :=
  sortFrom floatAliases rounds 0 orderedMoves

end

end MoveResolver
end SpiderMonkey
