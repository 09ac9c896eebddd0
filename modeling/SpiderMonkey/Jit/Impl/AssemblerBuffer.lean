import Mathlib.Data.Int.NatAbs

/-!
This module contains the assembler buffer with constant pools: the deadlines of short-range branches, the pool,
the check for space and the spill that finishes the pool. The bytes of the buffer, which none of these reads, are
left out, and so is the filling with NOPs, which only tests turn on. The callback that patches a branch to its
veneer registers no branch.
-/

namespace SpiderMonkey

-- The deadlines of each range are in ascending order, and the earliest one is kept at hand.
structure BranchDeadlineSet where
  vectors : List (List Nat)
  earliest : Option Nat
  earliestRange : Nat

namespace BranchDeadlineSet

def vectorForRange (set : BranchDeadlineSet) (rangeIdx : Nat) : List Nat := set.vectors.getD rangeIdx []

def recomputeEarliest (set : BranchDeadlineSet) : BranchDeadlineSet :=
  let set := { set with earliest := none }
  set.vectors.length.fold (fun r _ set =>
    match (set.vectorForRange r).head?, set.earliest with
    | none, _ => set
    | some first, none => { set with earliest := some first, earliestRange := r }
    | some first, some earliest =>
      if first < earliest then { set with earliest := some first, earliestRange := r } else set) set

def updateEarliest (set : BranchDeadlineSet) (rangeIdx deadline : Nat) : BranchDeadlineSet :=
  match set.earliest with
  | none => { set with earliest := some deadline, earliestRange := rangeIdx }
  | some earliest =>
    if deadline < earliest then { set with earliest := some deadline, earliestRange := rangeIdx } else set

def size (set : BranchDeadlineSet) : Nat := set.vectors.foldl (fun count vec => count + vec.length) 0

def maxRangeSize (set : BranchDeadlineSet) : Nat := set.vectors.foldl (fun count vec => max count vec.length) 0

def setVector (set : BranchDeadlineSet) (rangeIdx : Nat) (vec : List Nat) : BranchDeadlineSet :=
  { set with vectors := set.vectors.set rangeIdx vec }

def addDeadlineSlow (set : BranchDeadlineSet) (rangeIdx deadline : Nat) : BranchDeadlineSet :=
  let vec := set.vectorForRange rangeIdx
  let below := vec.takeWhile (· < deadline)
  let rest := vec.dropWhile (· < deadline)
  (set.setVector rangeIdx (below ++ deadline :: rest)).updateEarliest rangeIdx deadline

def addDeadline (set : BranchDeadlineSet) (rangeIdx deadline : Nat) : BranchDeadlineSet :=
  let vec := set.vectorForRange rangeIdx
  match vec.getLast? with
  | some back =>
    if back < deadline then set.setVector rangeIdx (vec ++ [deadline]) else set.addDeadlineSlow rangeIdx deadline
  | none => (set.setVector rangeIdx [deadline]).updateEarliest rangeIdx deadline

def removeDeadline (set : BranchDeadlineSet) (rangeIdx deadline : Nat) : BranchDeadlineSet :=
  let vec := set.vectorForRange rangeIdx
  if vec.getLast? = some deadline then
    let set := set.setVector rangeIdx vec.dropLast
    if set.earliest = some deadline then set.recomputeEarliest else set
  else
    let below := vec.takeWhile (· < deadline)
    match vec.dropWhile (· < deadline) with
    | [] => set
    | found :: rest =>
      if found ≠ deadline then
        set
      else
        let set := set.setVector rangeIdx (below ++ rest)
        if set.earliest = some deadline then set.recomputeEarliest else set

end BranchDeadlineSet

def sizeofPoolAllocUnit : Nat := 4

def ShortRangeBranchHysteresis : Nat := 128

structure Pool where
  poolData : List (BitVec 32)
  limitingUser : Option Nat
  limitingUsee : Nat
  loadOffsets : List Nat

namespace Pool

def numEntries (pool : Pool) : Nat := pool.poolData.length

def getPoolSize (pool : Pool) : Nat := pool.numEntries * sizeofPoolAllocUnit

def updateLimiter (pool : Pool) (nextInst : Nat) : Pool :=
  match pool.limitingUser with
  | none => { pool with limitingUser := some nextInst, limitingUsee := pool.numEntries }
  | some limitingUser =>
    let oldRange : Int := (pool.limitingUsee * sizeofPoolAllocUnit : Nat) - (limitingUser : Int)
    let newRange : Int := pool.getPoolSize - (nextInst : Int)
    if newRange > oldRange then
      { pool with limitingUser := some nextInst, limitingUsee := pool.numEntries }
    else
      pool

def checkFull (maxOffset bias : Nat) (pool : Pool) (poolOffset : Nat) : Bool :=
  match pool.limitingUser with
  | none => false
  | some limitingUser =>
    let offset : Int := ((poolOffset + pool.limitingUsee * sizeofPoolAllocUnit : Nat) - (limitingUser + bias : Int))
      % 2 ^ 64
    offset ≥ maxOffset

def reset (_ : Pool) : Pool := { poolData := [], limitingUser := none, limitingUsee := 2 ^ 32 - 1, loadOffsets := [] }

end Pool

-- The parameters of the template and of its constructor, and what memory the allocator grants: bytes after
-- those of a buffer, and one more element for a vector.
structure AssemblerBufferConfig where
  instSize : Nat
  guardSize : Nat
  headerSize : Nat
  poolMaxOffset : Nat
  pcBias : Nat
  ensureSpace : (bufferSize numBytes : Nat) → Bool
  append : (length : Nat) → Bool

structure AssemblerBuffer where
  nextOffset : Nat
  oom : Bool
  pool : Pool
  poolEntryCount : Nat
  poolInfo : List (Nat × Nat)
  branchDeadlines : BranchDeadlineSet
  canNotPlacePool : Bool

namespace AssemblerBuffer

section

variable (cfg : AssemblerBufferConfig)

def init (numShortBranchRanges : Nat) : AssemblerBuffer where
  nextOffset := 0
  oom := false
  pool := { poolData := [], limitingUser := none, limitingUsee := 2 ^ 31, loadOffsets := [] }
  poolEntryCount := 0
  poolInfo := []
  branchDeadlines := { vectors := List.replicate numShortBranchRanges [], earliest := none, earliestRange := 0 }
  canNotPlacePool := false

def putBytes (numBytes : Nat) (s : AssemblerBuffer) : AssemblerBuffer :=
  if cfg.ensureSpace s.nextOffset numBytes then
    { s with nextOffset := s.nextOffset + numBytes }
  else
    { s with oom := true }

def putBytesLarge : Nat → AssemblerBuffer → AssemblerBuffer
  | 0, s => s
  | numBytes + 1, s =>
    if cfg.ensureSpace s.nextOffset 1 then
      putBytesLarge numBytes { s with nextOffset := s.nextOffset + 1 }
    else
      { s with oom := true }

def hasSpaceForInsts (numInsts numPoolEntries : Nat) (s : AssemblerBuffer) : Bool :=
  let poolOffset := s.nextOffset + (numInsts + cfg.guardSize + cfg.headerSize) * cfg.instSize
  if s.pool.checkFull cfg.poolMaxOffset cfg.pcBias poolOffset then
    false
  else
    match s.branchDeadlines.earliest with
    | none => true
    | some deadline =>
      let poolEnd := poolOffset + s.pool.getPoolSize + numPoolEntries * sizeofPoolAllocUnit
      let secondaryVeneers := cfg.guardSize * (s.branchDeadlines.size - s.branchDeadlines.maxRangeSize)
      !(deadline < poolEnd + secondaryVeneers)

def hasExpirableShortRangeBranches (reservedBytes : Nat) (s : AssemblerBuffer) : Bool :=
  match s.branchDeadlines.earliest with
  | none => false
  | some deadline =>
    let future := s.nextOffset + reservedBytes
    !(future < 2 ^ 64) || deadline < future

def isPoolEmptyFor (bytes : Nat) (s : AssemblerBuffer) : Bool :=
  s.pool.numEntries = 0 && !s.hasExpirableShortRangeBranches bytes

def placeVeneers (reservedBytes : Nat) : Nat → AssemblerBuffer → AssemblerBuffer
  | 0, s => s
  | rounds + 1, s =>
    if s.hasExpirableShortRangeBranches reservedBytes then
      match s.branchDeadlines.earliest with
      | none => s
      | some deadline =>
        let rangeIdx := s.branchDeadlines.earliestRange
        let s := { s with branchDeadlines := s.branchDeadlines.removeDeadline rangeIdx deadline }
        let s := s.putBytes cfg (cfg.guardSize * cfg.instSize)
        if s.oom then s else placeVeneers reservedBytes rounds s
    else
      s

-- It is not called in a no-pool region unless there is nothing to place.
def finishPool (reservedBytes : Nat) (s : AssemblerBuffer) : AssemblerBuffer :=
  let reservedBytes := max reservedBytes ShortRangeBranchHysteresis
  if s.isPoolEmptyFor reservedBytes then
    s
  else
    let s := s.putBytes cfg (cfg.guardSize * cfg.instSize)
    let s := s.putBytes cfg (cfg.headerSize * cfg.instSize)
    let data := s.nextOffset
    let s := s.putBytesLarge cfg s.pool.getPoolSize
    if s.oom then
      s
    else
      let s := s.placeVeneers cfg reservedBytes s.branchDeadlines.size
      if s.oom then
        s
      else
        if cfg.append s.poolInfo.length then
          let firstEntry := s.poolEntryCount - s.pool.numEntries
          { s with poolInfo := s.poolInfo ++ [(firstEntry, data)], pool := s.pool.reset }
        else
          { s with oom := true }

def updateLimiter (numPoolEntries : Nat) (s : AssemblerBuffer) : AssemblerBuffer :=
  if numPoolEntries ≠ 0 then { s with pool := s.pool.updateLimiter s.nextOffset } else s

inductive EntryIndex where
  | OOM_FAIL
  | DUMMY_INDEX
  | index (n : Nat)
deriving DecidableEq, Repr

def insertEntry (data : List (BitVec 32)) (s : AssemblerBuffer) : AssemblerBuffer × EntryIndex :=
  let ret := s.pool.numEntries
  if cfg.append s.pool.poolData.length && cfg.append s.pool.loadOffsets.length then
    let pool := { s.pool with
      poolData := s.pool.poolData ++ data
      loadOffsets := s.pool.loadOffsets ++ [s.nextOffset] }
    ({ s with pool }, .index ret)
  else
    ({ s with oom := true }, .OOM_FAIL)

-- None when the rounds do not suffice for the recursion.
def insertEntryForwards (numInst : Nat) (data : List (BitVec 32))
    : Nat → AssemblerBuffer → Option (AssemblerBuffer × EntryIndex)
  | 0, _ => none
  | rounds + 1, s =>
    let s := s.updateLimiter data.length
    if !s.hasSpaceForInsts cfg numInst data.length then
      let s := s.finishPool cfg (numInst * cfg.instSize)
      if s.oom then some (s, .OOM_FAIL) else insertEntryForwards numInst data rounds s
    else if data.length ≠ 0 then
      some (s.insertEntry cfg data)
    else
      some (s, .DUMMY_INDEX)

def allocEntry (numInst : Nat) (data : List (BitVec 32)) (rounds : Nat) (s : AssemblerBuffer)
    : Option AssemblerBuffer := do
  if s.oom then
    return s
  let (s, _) ← s.insertEntryForwards cfg numInst data rounds
  if s.oom then
    return s
  return { s with poolEntryCount := s.poolEntryCount + data.length }.putBytes cfg (numInst * cfg.instSize)

def putInt (rounds : Nat) (s : AssemblerBuffer) : Option AssemblerBuffer :=
  if !s.hasSpaceForInsts cfg 1 0 then s.allocEntry cfg 1 [] rounds else some (s.putBytes cfg cfg.instSize)

def nextInstrOffset (s : AssemblerBuffer) : AssemblerBuffer :=
  if !s.hasSpaceForInsts cfg 1 0 then s.finishPool cfg ShortRangeBranchHysteresis else s

def registerBranchDeadline (rangeIdx deadline : Nat) (s : AssemblerBuffer) : AssemblerBuffer :=
  if s.oom then
    s
  else if cfg.append (s.branchDeadlines.vectorForRange rangeIdx).length then
    { s with branchDeadlines := s.branchDeadlines.addDeadline rangeIdx deadline }
  else
    { s with oom := true }

def unregisterBranchDeadline (rangeIdx deadline : Nat) (s : AssemblerBuffer) : AssemblerBuffer :=
  if s.oom then s else { s with branchDeadlines := s.branchDeadlines.removeDeadline rangeIdx deadline }

def flushPool (s : AssemblerBuffer) : AssemblerBuffer :=
  if s.oom then s else s.finishPool cfg (2 ^ 64 - 1)

def enterNoPool (maxInst : Nat) (s : AssemblerBuffer) : Option AssemblerBuffer :=
  if s.oom then
    some s
  else
    if !s.hasSpaceForInsts cfg maxInst 0 then
      let s := s.finishPool cfg (maxInst * cfg.instSize)
      if s.hasSpaceForInsts cfg maxInst 0 then some { s with canNotPlacePool := true } else none
    else
      some { s with canNotPlacePool := true }

def leaveNoPool (s : AssemblerBuffer) : AssemblerBuffer := { s with canNotPlacePool := false }

def alignWith (alignment rounds : Nat) : Nat → AssemblerBuffer → Option AssemblerBuffer
  | 0, _ => none
  | fuel + 1, s =>
    if s.nextOffset % alignment ≠ 0 ∧ ¬s.oom then do
      let s ← s.putInt cfg rounds
      alignWith alignment rounds fuel s
    else
      some s

def align (alignment rounds fuel : Nat) (s : AssemblerBuffer) : Option AssemblerBuffer :=
  let requiredFill := s.nextOffset % alignment
  if requiredFill = 0 then
    some s
  else
    let requiredFill := alignment - requiredFill
    let s :=
      if !s.hasSpaceForInsts cfg (requiredFill / cfg.instSize + 1) 0 then s.finishPool cfg requiredFill else s
    s.alignWith cfg alignment rounds fuel

end

end AssemblerBuffer

end SpiderMonkey
