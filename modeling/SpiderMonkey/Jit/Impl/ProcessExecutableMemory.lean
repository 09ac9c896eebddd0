import SpiderMonkey.Lib.BitSet

/-!
This module contains the allocator of executable memory.
-/

namespace SpiderMonkey

inductive WordSize where
  | bits32
  | bits64
deriving DecidableEq

def MaxCodeBytesPerProcess : WordSize → Nat
  | .bits32 => 140 * 1024 * 1024
  | .bits64 => 2044 * 1024 * 1024

def ExecutableCodePageSize : Nat := 64 * 1024

def MaxCodePages (wordSize : WordSize) : Nat := MaxCodeBytesPerProcess wordSize / ExecutableCodePageSize

structure PageBitSet (NumBits : Nat) where
  words_ : Vector (BitVec 32) (NumBits / 32)

namespace PageBitSet

variable {NumBits : Nat}

def init : PageBitSet NumBits := ⟨Vector.replicate _ 0#32⟩

def indexToWord (index : Nat) : Nat := index / 32

def indexToBit (index : Nat) : BitVec 32 := 1#32 <<< (index % 32)

def word (pages : PageBitSet NumBits) (index : Nat) : BitVec 32 :=
  pages.words_[indexToWord index]?.getD 0#32

def contains (pages : PageBitSet NumBits) (index : Nat) : Bool :=
  pages.word index &&& indexToBit index != 0#32

def insert (pages : PageBitSet NumBits) (index : Nat) : PageBitSet NumBits :=
  ⟨pages.words_.setIfInBounds (indexToWord index) (pages.word index ||| indexToBit index)⟩

def remove (pages : PageBitSet NumBits) (index : Nat) : PageBitSet NumBits :=
  ⟨pages.words_.setIfInBounds (indexToWord index) (pages.word index &&& ~~~indexToBit index)⟩

end PageBitSet

structure ProcessExecutableMemory (wordSize : WordSize) where
  base_ : Nat
  pagesAllocated_ : Nat
  cursor_ : Nat
  pages_ : PageBitSet (MaxCodePages wordSize)

namespace ProcessExecutableMemory

variable {wordSize : WordSize}

def init (base : Nat) : ProcessExecutableMemory wordSize := ⟨base, 0, 0, PageBitSet.init⟩

def assertValidAddress (memory : ProcessExecutableMemory wordSize) (p bytes : Nat) : Bool :=
  decide (memory.base_ ≤ p ∧ p + bytes ≤ memory.base_ + MaxCodeBytesPerProcess wordSize)

def available (memory : ProcessExecutableMemory wordSize) (numPages page : Nat) : Bool :=
  (List.range numPages).all fun j => !memory.pages_.contains (page + j)

def insertPages (pages : PageBitSet (MaxCodePages wordSize)) (page numPages : Nat)
    : PageBitSet (MaxCodePages wordSize) :=
  (List.range numPages).foldl (fun pages j => pages.insert (page + j)) pages

def removePages (pages : PageBitSet (MaxCodePages wordSize)) (page numPages : Nat)
    : PageBitSet (MaxCodePages wordSize) :=
  (List.range numPages).foldl (fun pages j => pages.remove (page + j)) pages

def findPages (memory : ProcessExecutableMemory wordSize) (numPages : Nat) : Nat → Nat → Option Nat
  | 0, _ => none
  | rounds + 1, page =>
    let page := if page + numPages > MaxCodePages wordSize then 0 else page
    if memory.available numPages page then some page
    else memory.findPages numPages rounds (page + 1)

def markPages (memory : ProcessExecutableMemory wordSize) (page numPages : Nat)
    : ProcessExecutableMemory wordSize :=
  { memory with
    pages_ := insertPages memory.pages_ page numPages
    pagesAllocated_ := memory.pagesAllocated_ + numPages
    cursor_ := if numPages ≤ 2 then page + numPages else memory.cursor_ }

def deallocate (memory : ProcessExecutableMemory wordSize) (addr bytes : Nat)
    : Option (ProcessExecutableMemory wordSize) :=
  if memory.assertValidAddress addr bytes then
    let firstPage := (addr - memory.base_) / ExecutableCodePageSize
    let numPages := bytes / ExecutableCodePageSize
    some { memory with
      pagesAllocated_ := memory.pagesAllocated_ - numPages
      pages_ := removePages memory.pages_ firstPage numPages
      cursor_ := if firstPage < memory.cursor_ then firstPage else memory.cursor_ }
  else none

-- `random` is the next number of `rng_`, `commits` whether `CommitPages` succeeds if it is called; the
-- address is `none` for a null pointer.
def allocate (memory : ProcessExecutableMemory wordSize) (bytes : Nat) (random : BitVec 64) (commits : Bool)
    : Option (Option Nat × ProcessExecutableMemory wordSize) :=
  let numPages := bytes / ExecutableCodePageSize
  if memory.pagesAllocated_ + numPages ≥ MaxCodePages wordSize then some (none, memory)
  else
    let page := memory.cursor_ + random.toNat % 2
    match memory.findPages numPages (MaxCodePages wordSize) page with
    | none => some (none, memory)
    | some page =>
      let memory := memory.markPages page numPages
      let p := memory.base_ + page * ExecutableCodePageSize
      if commits then some (some p, memory)
      else (memory.deallocate p bytes).map fun memory => (none, memory)

inductive Call where
  | allocate (bytes : Nat) (random : BitVec 64) (commits : Bool)
  | deallocate (addr bytes : Nat)

-- The memory together with the ranges that were handed out and not given back.
structure State (wordSize : WordSize) where
  memory : ProcessExecutableMemory wordSize
  live : List (Nat × Nat)

def State.init (base : Nat) : State wordSize := ⟨ProcessExecutableMemory.init base, []⟩

def State.step (state : State wordSize) : Call → Option (State wordSize)
  | .allocate bytes random commits =>
    (state.memory.allocate bytes random commits).map fun
      | (none, memory) => ⟨memory, state.live⟩
      | (some p, memory) => ⟨memory, (p, bytes) :: state.live⟩
  | .deallocate addr bytes =>
    (state.memory.deallocate addr bytes).map fun memory => ⟨memory, state.live.erase (addr, bytes)⟩

def State.Meets (state : State wordSize) : Call → Prop
  | .allocate bytes _ _ => 0 < bytes ∧ bytes % ExecutableCodePageSize = 0
  | .deallocate addr bytes => (addr, bytes) ∈ state.live

end ProcessExecutableMemory

end SpiderMonkey
