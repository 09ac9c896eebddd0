import Mathlib.Data.Int.NatAbs

/-!
This module contains how compacting chooses arenas of a kind and relocates their cells. A chunk may have a new arena or
not; relocating crashes when one is needed and there is none.
-/

namespace SpiderMonkey.Gc
namespace Compact

structure Arena (α : Type) where
  cells : List (Option α)
deriving DecidableEq

namespace Arena

variable {α : Type} (arena : Arena α)

def countFreeCells : Nat := arena.cells.countP Option.isNone
def countUsedCells (thingsPerArena : Nat) : Nat := thingsPerArena - arena.countFreeCells

def usedCells : List α := arena.cells.filterMap id

def allocate (contents : α) : Option (Arena α) := do
  let i ← arena.cells.findIdx? Option.isNone
  return { cells := arena.cells.set i (some contents) }

end Arena

-- The cursor stands for the number of arenas before it.
structure ArenaList (α : Type) where
  arenas : List (Arena α)
  cursorp_ : Nat
deriving DecidableEq

-- What there is to relocate starts at a position, which there is unless the list has nothing to choose from. The last
-- field says whether the assertions hold.
structure Picked where
  arenap : Option Nat
  arenaTotalOut : Nat
  relocTotalOut : Nat
  asserted : Bool
deriving DecidableEq

namespace ArenaList

variable {α : Type} (al : ArenaList α) (cellsPerArena : Nat)

def arenasAfterCursor : List (Arena α) := al.arenas.drop al.cursorp_

def isCursorAtEnd : Bool := al.arenasAfterCursor.isEmpty

def takeNextArena : Option (Nat × ArenaList α) :=
  if al.cursorp_ < al.arenas.length then some (al.cursorp_, { al with cursorp_ := al.cursorp_ + 1 }) else none

def insertBeforeCursor (arena : Arena α) : ArenaList α where
  arenas := al.arenas.take al.cursorp_ ++ arena :: al.arenas.drop al.cursorp_
  cursorp_ := al.cursorp_ + 1

def removeRemainingArenas (arenap : Nat) : List (Arena α) × ArenaList α :=
  (al.arenas.drop arenap, { al with arenas := al.arenas.take arenap })

def pickLoop : (arenas : List (Arena α)) → (previousFreeCells followingUsedCells lastFreeCells arenaIndex : Nat)
    → (asserted : Bool) → Nat × Bool
  | [], _, _, _, arenaIndex, asserted => (arenaIndex, asserted)
  | arena :: arenas, previousFreeCells, followingUsedCells, lastFreeCells, arenaIndex, asserted =>
    if followingUsedCells ≤ previousFreeCells then (arenaIndex, asserted)
    else
      let freeCells := arena.countFreeCells
      let usedCells := cellsPerArena - freeCells
      pickLoop arenas (previousFreeCells + freeCells) (followingUsedCells - usedCells) freeCells (arenaIndex + 1)
        (asserted && freeCells ≥ lastFreeCells)

def pickArenasToRelocate (arenaTotalOut relocTotalOut : Nat) : Picked :=
  if al.isCursorAtEnd then { arenap := none, arenaTotalOut, relocTotalOut, asserted := true }
  else
    let fullArenaCount := (al.arenas.take al.cursorp_).length
    let followingUsedCells := (al.arenasAfterCursor.map (·.countUsedCells cellsPerArena)).sum
    let nonFullArenaCount := al.arenasAfterCursor.length
    let (arenaIndex, asserted) := pickLoop cellsPerArena al.arenasAfterCursor 0 followingUsedCells 0 0 true
    let relocCount := nonFullArenaCount - arenaIndex
    let arenap := al.cursorp_ + arenaIndex
    {
      arenap
      arenaTotalOut := arenaTotalOut + (fullArenaCount + nonFullArenaCount)
      relocTotalOut := relocTotalOut + relocCount
      asserted := asserted && decide (relocCount < nonFullArenaCount)
        && decide (relocCount = 0 ↔ al.arenas.drop arenap = [])
    }

end ArenaList

structure ArenasOfKind (α : Type) where
  freeList : Option Nat
  arenaList : ArenaList α
deriving DecidableEq

namespace ArenasOfKind

variable {α : Type} (newArena : Option (Arena α)) (al : ArenasOfKind α)

def clearFreeList : ArenasOfKind α := { al with freeList := none }

def allocateFromFreeList (contents : α) : Option (ArenasOfKind α) := do
  let i ← al.freeList
  let arena ← al.arenaList.arenas[i]?
  let arena ← arena.allocate contents
  return { al with arenaList := { al.arenaList with arenas := al.arenaList.arenas.set i arena } }

def refillFreeListAndAllocate (contents : α) : Option (ArenasOfKind α) :=
  match al.arenaList.takeNextArena with
  | some (arena, arenaList) => allocateFromFreeList { freeList := some arena, arenaList } contents
  | none => do
    let arenaList := al.arenaList.insertBeforeCursor (← newArena)
    allocateFromFreeList { freeList := some al.arenaList.cursorp_, arenaList } contents

def AllocateCellInGC (contents : α) : Option (ArenasOfKind α) :=
  match al.allocateFromFreeList contents with
  | some al => some al
  | none => al.refillFreeListAndAllocate newArena contents

def RelocateArena (arena : Arena α) : Option (ArenasOfKind α) :=
  arena.usedCells.foldlM (AllocateCellInGC newArena) al

def relocateArenas : (toRelocate relocated : List (Arena α)) → (al : ArenasOfKind α)
    → Option (List (Arena α) × ArenasOfKind α)
  | [], relocated, al => some (relocated, al)
  | arena :: toRelocate, relocated, al => do
    let al ← al.RelocateArena newArena arena
    relocateArenas toRelocate (arena :: relocated) al

def relocatePicked (arenap : Option Nat) (relocated : List (Arena α)) : Option (List (Arena α) × ArenasOfKind α) :=
  match arenap with
  | none => some (relocated, al)
  | some arenap =>
    let (arenas, arenaList) := al.arenaList.removeRemainingArenas arenap
    relocateArenas newArena arenas relocated { al with arenaList }

def relocateAll (relocated : List (Arena α)) : Option (List (Arena α) × ArenasOfKind α) :=
  relocateArenas newArena al.arenaList.arenas relocated { al with arenaList := { arenas := [], cursorp_ := 0 } }

end ArenasOfKind

structure Kind (α : Type) where
  thingsPerArena : Nat
  arenas : ArenasOfKind α
deriving DecidableEq

namespace ArenaLists

variable {α : Type} (newArena : Option (Arena α))

def pickArenasToRelocate : (kinds : List (Kind α)) → (arenaCount relocCount : Nat)
    → List (Kind α × Option Nat) × Nat × Nat
  | [], arenaCount, relocCount => ([], arenaCount, relocCount)
  | kind :: kinds, arenaCount, relocCount =>
    let picked := kind.arenas.arenaList.pickArenasToRelocate kind.thingsPerArena arenaCount relocCount
    let (toRelocate, counts) := pickArenasToRelocate kinds picked.arenaTotalOut picked.relocTotalOut
    ((kind, picked.arenap) :: toRelocate, counts)

def relocateKinds (relocate : Kind α → Option Nat → List (Arena α) → Option (List (Arena α) × ArenasOfKind α))
    : (toRelocate : List (Kind α × Option Nat)) → (relocated : List (Arena α))
    → Option (List (Arena α) × List (Kind α))
  | [], relocated => some (relocated, [])
  | (kind, arenap) :: toRelocate, relocated => do
    let (relocated, arenas) ← relocate kind arenap relocated
    let (relocated, kinds) ← relocateKinds relocate toRelocate relocated
    return (relocated, { kind with arenas } :: kinds)

-- Whether the reason is to relocate all arenas, and whether so many out of so many are enough, is decided outside.
def relocateArenas (ShouldRelocateAllArenas : Bool) (ShouldRelocateZone : (arenaCount relocCount : Nat) → Bool)
    (kinds : List (Kind α)) (relocatedListOut : List (Arena α)) : Option (Bool × List (Arena α) × List (Kind α)) := do
  let kinds := kinds.map fun kind => { kind with arenas := kind.arenas.clearFreeList }
  if ShouldRelocateAllArenas then
    let all := kinds.map fun kind => (kind, none)
    return (true, ← relocateKinds (fun kind _ => kind.arenas.relocateAll newArena) all relocatedListOut)
  else
    let (toRelocate, arenaCount, relocCount) := pickArenasToRelocate kinds 0 0
    if ¬ShouldRelocateZone arenaCount relocCount then return (false, relocatedListOut, kinds)
    else return (true, ← relocateKinds (fun kind => kind.arenas.relocatePicked newArena) toRelocate relocatedListOut)

end ArenaLists

end Compact
end SpiderMonkey.Gc
