import Mathlib.Data.Int.NatAbs

/-!
This module contains the allocator of stack slots, with the two lists of slots that are free below the height.
-/

namespace SpiderMonkey

-- The platform is one that boxes a value in 64 bits or one that takes a type word and a payload word.
inductive Boxing where
  | punbox64
  | nunbox32
deriving DecidableEq, Repr

inductive LDefinition.Kind where
  | general
  | int32
  | object
  | slots
  | float32
  | double
  | simd128
  | stackResults
  | type
  | payload
  | box
deriving DecidableEq, Repr

-- `base` is what `setBase` stores.
structure LStackArea where
  size : UInt32
  base : UInt32 := 0
deriving DecidableEq, Repr

def LStackArea.alignment (_ : LStackArea) : UInt32 := 8

-- Whether the vectors of free slots have the memory for what one call appends to them.
structure AppendOutcomes where
  normal : Bool
  double : Bool
deriving DecidableEq, Repr

-- The last slot of a vector is the first of its list.
structure StackSlotAllocator where
  normalSlots : List UInt32
  doubleSlots : List UInt32
  height : UInt32
deriving DecidableEq, Repr

namespace StackSlotAllocator

def empty : StackSlotAllocator := { normalSlots := [], doubleSlots := [], height := 0 }

def addAvailableSlot (outcomes : AppendOutcomes) (index : UInt32) (allocator : StackSlotAllocator)
    : StackSlotAllocator :=
  if outcomes.normal then
    { allocator with normalSlots := index :: allocator.normalSlots }
  else
    allocator

def addAvailableDoubleSlot (outcomes : AppendOutcomes) (index : UInt32) (allocator : StackSlotAllocator)
    : StackSlotAllocator :=
  if outcomes.double then
    { allocator with doubleSlots := index :: allocator.doubleSlots }
  else
    allocator

-- `height_ += bytes`, which is also the index of the slot that the bytes make.
def grow (bytes : UInt32) (allocator : StackSlotAllocator) : StackSlotAllocator :=
  { allocator with height := allocator.height + bytes }

def padSlot (outcomes : AppendOutcomes) (allocator : StackSlotAllocator) : StackSlotAllocator :=
  (allocator.grow 4).addAvailableSlot outcomes (allocator.height + 4)

def padDoubleSlot (outcomes : AppendOutcomes) (allocator : StackSlotAllocator) : StackSlotAllocator :=
  (allocator.grow 8).addAvailableDoubleSlot outcomes (allocator.height + 8)

def allocateQuadSlot (outcomes : AppendOutcomes) (allocator : StackSlotAllocator) : UInt32 × StackSlotAllocator :=
  let allocator := if allocator.height % 8 ≠ 0 then allocator.padSlot outcomes else allocator
  let allocator := if allocator.height % 16 ≠ 0 then allocator.padDoubleSlot outcomes else allocator
  let allocator := allocator.grow 16
  (allocator.height, allocator)

def allocateDoubleSlot (outcomes : AppendOutcomes) (allocator : StackSlotAllocator) : UInt32 × StackSlotAllocator :=
  match allocator.doubleSlots with
  | index :: doubleSlots => (index, { allocator with doubleSlots })
  | [] =>
    let allocator := if allocator.height % 8 ≠ 0 then allocator.padSlot outcomes else allocator
    let allocator := allocator.grow 8
    (allocator.height, allocator)

def allocateSingleSlot (outcomes : AppendOutcomes) (allocator : StackSlotAllocator) : UInt32 × StackSlotAllocator :=
  match allocator.normalSlots with
  | index :: normalSlots => (index, { allocator with normalSlots })
  | [] =>
    match allocator.doubleSlots with
    | index :: doubleSlots =>
      (index, { allocator with doubleSlots }.addAvailableSlot outcomes (index - 4))
    | [] =>
      let allocator := allocator.grow 4
      (allocator.height, allocator)

-- A failed assertion and MOZ_CRASH are none.
def allocateStackArea (outcomes : AppendOutcomes) (alloc : LStackArea) (allocator : StackSlotAllocator)
    : Option (LStackArea × StackSlotAllocator) :=
  let size := alloc.size
  if size % 4 ≠ 0 then
    none
  else if alloc.alignment ≠ 8 then
    none
  else
    let allocator := if (allocator.height + size) % 8 ≠ 0 then allocator.padSlot outcomes else allocator
    if (allocator.height + size) % alloc.alignment ≠ 0 then
      none
    else
      let allocator := allocator.grow size
      some ({ alloc with base := allocator.height }, allocator)

def width : Boxing → LDefinition.Kind → Option UInt32
  | .nunbox32, .general => some 4
  | .nunbox32, .object => some 4
  | .nunbox32, .slots => some 4
  | _, .int32 => some 4
  | _, .float32 => some 4
  | .punbox64, .general => some 8
  | .punbox64, .object => some 8
  | .punbox64, .slots => some 8
  | .punbox64, .box => some 8
  | .nunbox32, .type => some 8
  | .nunbox32, .payload => some 8
  | _, .double => some 8
  | _, .simd128 => some 16
  | _, _ => none

def allocateSlot (boxing : Boxing) (outcomes : AppendOutcomes) (defType : LDefinition.Kind)
    (allocator : StackSlotAllocator) : Option (UInt32 × StackSlotAllocator) :=
  match width boxing defType with
  | some 4 => some (allocator.allocateSingleSlot outcomes)
  | some 8 => some (allocator.allocateDoubleSlot outcomes)
  | some 16 => some (allocator.allocateQuadSlot outcomes)
  | _ => none

def stackHeight (allocator : StackSlotAllocator) : UInt32 := allocator.height

end StackSlotAllocator

end SpiderMonkey
