import Mathlib.Data.Finset.Erase
import Mathlib.Data.Finset.Insert
import SpiderMonkey.Lib.BitSet

/-!
This module contains the chunks of the garbage collected heap and the accounts of their arenas.
-/

namespace SpiderMonkey

def BitArray.numSlots (nbits : Nat) : Nat := nbits / 32 + if nbits % 32 = 0 then 0 else 1

structure BitArray (nbits : Nat) where
  map : Vector (BitVec 32) (BitArray.numSlots nbits)

namespace BitArray

variable {nbits : Nat}

def paddingMask (nbits : Nat) : BitVec 32 := BitVec.allOnes 32 >>> (numSlots nbits * 32 - nbits)

def clear (value : Bool) : BitArray nbits :=
  let map := Vector.replicate (numSlots nbits) (if value then BitVec.allOnes 32 else 0#32)
  let last := map[numSlots nbits - 1]?.getD 0#32
  if value then ⟨map.setIfInBounds (numSlots nbits - 1) (last &&& paddingMask nbits)⟩ else ⟨map⟩

def word (bits : BitArray nbits) (offset : Nat) : BitVec 32 := bits.map[offset / 32]?.getD 0#32

def mask (offset : Nat) : BitVec 32 := 1#32 <<< (offset % 32)

def get (bits : BitArray nbits) (offset : Nat) : Bool := bits.word offset &&& mask offset != 0#32

def set (bits : BitArray nbits) (offset : Nat) : BitArray nbits :=
  ⟨bits.map.setIfInBounds (offset / 32) (bits.word offset ||| mask offset)⟩

def unset (bits : BitArray nbits) (offset : Nat) : BitArray nbits :=
  ⟨bits.map.setIfInBounds (offset / 32) (bits.word offset &&& ~~~mask offset)⟩

end BitArray

namespace Gc

inductive ChunkSize where
  | small
  | standard
deriving DecidableEq

def ArenasPerChunk : ChunkSize → Nat
  | .small => 62
  | .standard => 252

structure Arena where
  next : Option Nat
  allocKind : Option Nat
deriving DecidableEq

def Arena.allocated (arena : Arena) : Bool := arena.allocKind.isSome

def Arena.init (arena : Arena) (kind : Nat) : Arena := { arena with allocKind := some kind }

def Arena.setAsNotAllocated (arena : Arena) : Arena := { arena with allocKind := none }

structure ChunkInfo where
  freeArenasHead : Option Nat
  lastDecommittedArenaOffset : UInt32
  numArenasFree : UInt32
  numArenasFreeCommitted : UInt32

-- `committed` is not in the source: whether the memory of the arena is committed, as far as the calls
-- to the system tell.
structure Chunk (size : ChunkSize) where
  arenas : Nat → Arena
  committed : Nat → Bool
  decommittedArenas : BitArray (ArenasPerChunk size)
  info : ChunkInfo

namespace Chunk

variable {size : ChunkSize}

def unused (chunk : Chunk size) : Bool :=
  decide (chunk.info.numArenasFree = UInt32.ofNat (ArenasPerChunk size))

def hasAvailableArenas (chunk : Chunk size) : Bool := decide (chunk.info.numArenasFree ≠ 0)

def setArena (chunk : Chunk size) (i : Nat) (arena : Arena) : Chunk size :=
  { chunk with arenas := Function.update chunk.arenas i arena }

def MarkPagesUnusedSoft (chunk : Chunk size) (i : Nat) (contents : Option Arena) : Option (Chunk size) :=
  match contents with
  | none => none
  | some contents =>
    some { chunk.setArena i contents with committed := Function.update chunk.committed i false }

def MarkPagesInUseSoft (chunk : Chunk size) (i : Nat) : Chunk size :=
  { chunk with committed := Function.update chunk.committed i true }

-- Nobody looks whether the call to the system succeeds: its arenas count as decommitted.
def decommitAllArenas (chunk : Chunk size) (contents : Nat → Arena) : Chunk size :=
  { chunk with
    arenas := contents
    committed := fun _ => false
    decommittedArenas := BitArray.clear true
    info :=
      { freeArenasHead := none
        lastDecommittedArenaOffset := 0
        numArenasFree := UInt32.ofNat (ArenasPerChunk size)
        numArenasFreeCommitted := 0 } }

def findDecommittedArenaOffset (chunk : Chunk size) : Option Nat :=
  let last := chunk.info.lastDecommittedArenaOffset.toNat
  match (List.range' last (ArenasPerChunk size - last)).find? fun i => chunk.decommittedArenas.get i with
  | some i => some i
  | none => (List.range last).find? fun i => chunk.decommittedArenas.get i

def fetchNextDecommittedArena (chunk : Chunk size) : Option (Nat × Chunk size) :=
  match chunk.findDecommittedArenaOffset with
  | none => none
  | some offset =>
    let chunk := { chunk with
      info := { chunk.info with
        lastDecommittedArenaOffset := UInt32.ofNat offset + 1
        numArenasFree := chunk.info.numArenasFree - 1 }
      decommittedArenas := chunk.decommittedArenas.unset offset }
    let chunk := chunk.MarkPagesInUseSoft offset
    some (offset, chunk.setArena offset (chunk.arenas offset).setAsNotAllocated)

def addArenaToDecommittedList (chunk : Chunk size) (arena : Nat) : Chunk size :=
  { chunk with
    info := { chunk.info with numArenasFree := chunk.info.numArenasFree + 1 }
    decommittedArenas := chunk.decommittedArenas.set arena }

def decommitArenaInPlace (outcome : Nat → Option Arena) (chunk : Chunk size) (i : Nat) : Chunk size :=
  if chunk.decommittedArenas.get i || (chunk.arenas i).allocated then chunk
  else
    match chunk.MarkPagesUnusedSoft i (outcome i) with
    | none => chunk
    | some chunk =>
      { chunk with
        info := { chunk.info with numArenasFreeCommitted := chunk.info.numArenasFreeCommitted - 1 }
        decommittedArenas := chunk.decommittedArenas.set i }

def decommitFreeArenasWithoutUnlocking (chunk : Chunk size) (outcome : Nat → Option Arena) : Chunk size :=
  (List.range (ArenasPerChunk size)).foldl (decommitArenaInPlace outcome) chunk

end Chunk

structure GCRuntime (ι : Type) (size : ChunkSize) where
  chunks : ι → Chunk size
  availableChunks_ : List ι
  fullChunks_ : List ι
  emptyChunks_ : List ι
  numArenasFreeCommitted : UInt32

namespace GCRuntime

variable {ι : Type} [DecidableEq ι] {size : ChunkSize}

def setChunk (gc : GCRuntime ι size) (c : ι) (chunk : Chunk size) : GCRuntime ι size :=
  { gc with chunks := Function.update gc.chunks c chunk }

def addArenaToFreeList (gc : GCRuntime ι size) (c : ι) (arena : Nat) : GCRuntime ι size :=
  let chunk := gc.chunks c
  let chunk := chunk.setArena arena { chunk.arenas arena with next := chunk.info.freeArenasHead }
  let chunk := { chunk with
    info := { chunk.info with
      freeArenasHead := some arena
      numArenasFreeCommitted := chunk.info.numArenasFreeCommitted + 1
      numArenasFree := chunk.info.numArenasFree + 1 } }
  { gc.setChunk c chunk with numArenasFreeCommitted := gc.numArenasFreeCommitted + 1 }

def fetchNextFreeArena (gc : GCRuntime ι size) (c : ι) : Option (Nat × GCRuntime ι size) :=
  let chunk := gc.chunks c
  match chunk.info.freeArenasHead with
  | none => none
  | some arena =>
    let chunk := { chunk with
      info := { chunk.info with
        freeArenasHead := (chunk.arenas arena).next
        numArenasFreeCommitted := chunk.info.numArenasFreeCommitted - 1
        numArenasFree := chunk.info.numArenasFree - 1 } }
    some (arena, { gc.setChunk c chunk with numArenasFreeCommitted := gc.numArenasFreeCommitted - 1 })

def updateChunkListAfterAlloc (gc : GCRuntime ι size) (c : ι) : GCRuntime ι size :=
  if !(gc.chunks c).hasAvailableArenas then
    { gc with
      availableChunks_ := gc.availableChunks_.erase c
      fullChunks_ := c :: gc.fullChunks_ }
  else gc

def updateChunkListAfterFree (gc : GCRuntime ι size) (c : ι) (contents : Nat → Arena) : GCRuntime ι size :=
  if (gc.chunks c).info.numArenasFree = 1 then
    { gc with
      fullChunks_ := gc.fullChunks_.erase c
      availableChunks_ := c :: gc.availableChunks_ }
  else if !(gc.chunks c).unused then gc
  else
    { gc.setChunk c ((gc.chunks c).decommitAllArenas contents) with
      availableChunks_ := gc.availableChunks_.erase c
      emptyChunks_ := c :: gc.emptyChunks_ }

def initArena (gc : GCRuntime ι size) (c : ι) (arena kind : Nat) : GCRuntime ι size :=
  let chunk := gc.chunks c
  gc.setChunk c (chunk.setArena arena ((chunk.arenas arena).init kind))

def fetchArena (gc : GCRuntime ι size) (c : ι) : Option (Nat × GCRuntime ι size) :=
  if (gc.chunks c).info.numArenasFreeCommitted > 0 then gc.fetchNextFreeArena c
  else (gc.chunks c).fetchNextDecommittedArena.map fun (arena, chunk) => (arena, gc.setChunk c chunk)

def allocateArena (gc : GCRuntime ι size) (c : ι) (kind : Nat) : Option (Nat × GCRuntime ι size) :=
  (gc.fetchArena c).map fun (arena, gc) => (arena, (gc.initArena c arena kind).updateChunkListAfterAlloc c)

def releaseArena (gc : GCRuntime ι size) (c : ι) (arena : Nat) (contents : Nat → Arena) : GCRuntime ι size :=
  let chunk := gc.chunks c
  let gc := gc.setChunk c (chunk.setArena arena (chunk.arenas arena).setAsNotAllocated)
  (gc.addArenaToFreeList c arena).updateChunkListAfterFree c contents

def decommitOneFreeArena (gc : GCRuntime ι size) (c : ι) (outcome : Option Arena) (contents : Nat → Arena)
    : Option (GCRuntime ι size) :=
  match gc.fetchNextFreeArena c with
  | none => none
  | some (arena, gc) =>
    let gc := gc.updateChunkListAfterAlloc c
    match (gc.chunks c).MarkPagesUnusedSoft arena outcome with
    | some chunk =>
      some ((gc.setChunk c (chunk.addArenaToDecommittedList arena)).updateChunkListAfterFree c contents)
    | none => some ((gc.addArenaToFreeList c arena).updateChunkListAfterFree c contents)

def decommitFreeArenasWithoutUnlocking (gc : GCRuntime ι size) (c : ι) (outcome : Nat → Option Arena)
    : GCRuntime ι size :=
  gc.setChunk c ((gc.chunks c).decommitFreeArenasWithoutUnlocking outcome)

def init (available : List ι) (contents : ι → Nat → Arena) : GCRuntime ι size where
  chunks c := (Chunk.mk (contents c) (fun _ => false) (BitArray.clear false) ⟨none, 0, 0, 0⟩).decommitAllArenas
    (contents c)
  availableChunks_ := available
  fullChunks_ := []
  emptyChunks_ := []
  numArenasFreeCommitted := 0

inductive Call (ι : Type) where
  | allocateArena (c : ι) (kind : Nat)
  | releaseArena (c : ι) (arena : Nat) (contents : Nat → Arena)
  | decommitOneFreeArena (c : ι) (outcome : Option Arena) (contents : Nat → Arena)
  | decommitFreeArenasWithoutUnlocking (c : ι) (outcome : Nat → Option Arena)

structure State (ι : Type) (size : ChunkSize) where
  gc : GCRuntime ι size
  allocated : Finset (ι × Nat)

def State.init (available : List ι) (contents : ι → Nat → Arena) : State ι size :=
  ⟨GCRuntime.init available contents, ∅⟩

def State.step (state : State ι size) : Call ι → Option (State ι size)
  | .allocateArena c kind =>
    (state.gc.allocateArena c kind).map fun (arena, gc) => ⟨gc, insert (c, arena) state.allocated⟩
  | .releaseArena c arena contents =>
    some ⟨state.gc.releaseArena c arena contents, state.allocated.erase (c, arena)⟩
  | .decommitOneFreeArena c outcome contents =>
    (state.gc.decommitOneFreeArena c outcome contents).map fun gc => ⟨gc, state.allocated⟩
  | .decommitFreeArenasWithoutUnlocking c outcome =>
    some ⟨state.gc.decommitFreeArenasWithoutUnlocking c outcome, state.allocated⟩

def State.Allowed (state : State ι size) : Call ι → Prop
  | .allocateArena c _ => (state.gc.chunks c).hasAvailableArenas = true
  | .releaseArena c arena _ => (c, arena) ∈ state.allocated
  | .decommitOneFreeArena c _ _ => 0 < (state.gc.chunks c).info.numArenasFreeCommitted
  | .decommitFreeArenasWithoutUnlocking _ _ => True

end GCRuntime

end Gc

end SpiderMonkey
