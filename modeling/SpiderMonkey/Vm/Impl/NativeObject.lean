import SpiderMonkey.Lib.Overwrite
import SpiderMonkey.Mfbt.Impl.HashTable

/-!
This module contains the dense elements of native objects. The memory that is allocated for them is a list of slots in
which the header stands before the elements, in two slots of its own, and a pointer is an index into the list. An access
outside of what is allocated and a failed assertion yield `none`, and so does a write to the elements that all objects
without any share. Sums that an allocation bounds are not reduced.
-/

namespace SpiderMonkey.Elements

open Overwrite

def VALUES_PER_HEADER : Nat := 2
def NumShiftedElementsBits : Nat := 11
def MaxShiftedElements : Nat := 2 ^ NumShiftedElementsBits - 1
def NumShiftedElementsShift : Nat := 32 - NumShiftedElementsBits
def FlagsMask : BitVec 32 := BitVec.ofNat 32 (2 ^ NumShiftedElementsShift - 1)

def MAX_DENSE_ELEMENTS_ALLOCATION : Nat := 2 ^ 28 - 1
def MAX_DENSE_ELEMENTS_COUNT : Nat := MAX_DENSE_ELEMENTS_ALLOCATION - VALUES_PER_HEADER
def SLOT_CAPACITY_MIN : Nat := 8
def MIN_SPARSE_INDEX : Nat := 1000
def SPARSE_DENSITY_RATIO : Nat := 8
def MaxElementsToMoveEagerly : Nat := 20

def NONWRITABLE_ARRAY_LENGTH : BitVec 32 := 0x2#32
def COPY_ON_WRITE : BitVec 32 := 0x4#32
def SEALED : BitVec 32 := 0x10#32
def FROZEN : BitVec 32 := 0x20#32

-- The objects with shifted elements have none of these flags.
def UnshiftedFlags : BitVec 32 := NONWRITABLE_ARRAY_LENGTH ||| SEALED ||| FROZEN ||| COPY_ON_WRITE

inductive Value (α : Type) where
  | undefined
  | elementsHole
  | other (v : α)
deriving DecidableEq

def MOZ_ASSERT (p : Prop) [Decidable p] : Option Unit := if p then some () else none

structure ObjectElements where
  flags : BitVec 32
  initializedLength : Nat
  capacity : Nat
  length : Nat
deriving DecidableEq

namespace ObjectElements

variable (h : ObjectElements)

def numShiftedElements : Nat := (h.flags >>> NumShiftedElementsShift).toNat
def hasNonwritableArrayLength : Bool := h.flags &&& NONWRITABLE_ARRAY_LENGTH ≠ 0
def isCopyOnWrite : Bool := h.flags &&& COPY_ON_WRITE ≠ 0
def numAllocatedElements : Nat := VALUES_PER_HEADER + h.capacity + h.numShiftedElements

def setNumShiftedElements (numShifted : Nat) : BitVec 32 :=
  (BitVec.ofNat 32 numShifted <<< NumShiftedElementsShift) ||| (h.flags &&& FlagsMask)

def addShiftedElements (count : Nat) : Option ObjectElements := do
  MOZ_ASSERT (count < h.capacity)
  MOZ_ASSERT (count < h.initializedLength)
  MOZ_ASSERT (h.flags &&& UnshiftedFlags = 0)
  let numShifted := h.numShiftedElements + count
  MOZ_ASSERT (numShifted ≤ MaxShiftedElements)
  return {
    h with
    flags := h.setNumShiftedElements numShifted
    capacity := h.capacity - count
    initializedLength := h.initializedLength - count
  }

def unshiftShiftedElements (count : Nat) : Option ObjectElements := do
  MOZ_ASSERT (count > 0)
  MOZ_ASSERT (h.flags &&& UnshiftedFlags = 0)
  let numShifted := h.numShiftedElements
  MOZ_ASSERT (count ≤ numShifted)
  let numShifted := numShifted - count
  return {
    h with
    flags := h.setNumShiftedElements numShifted
    capacity := h.capacity + count
    initializedLength := h.initializedLength + count
  }

def clearShiftedElements : ObjectElements := { h with flags := h.flags &&& FlagsMask }

def clearCopyOnWrite : Option ObjectElements := do
  MOZ_ASSERT h.isCopyOnWrite
  return { h with flags := h.flags &&& ~~~COPY_ON_WRITE }

end ObjectElements

inductive HeapSlot (α : Type) where
  | value (v : Value α)
  -- The two slots of a header.
  | flags (flags : BitVec 32) (initializedLength : Nat)
  | capacity (capacity length : Nat)
  | uninitialized
deriving DecidableEq

def ObjectElements.slots {α : Type} (h : ObjectElements) : List (HeapSlot α) :=
  [.flags h.flags h.initializedLength, .capacity h.capacity h.length]

-- Where the elements are: with all others without elements, in the object, or in a buffer of their own.
inductive Storage where
  | emptyElements
  | fixedElements
  | dynamicElements
deriving DecidableEq

structure NativeObject (α : Type) where
  slots : List (HeapSlot α)
  elements_ : Nat
  storage : Storage
  isExtensible : Bool
  isIndexed : Bool
deriving DecidableEq

abbrev Allocator := Nat → Bool

namespace NativeObject

variable {α : Type} (obj : NativeObject α)

def fromElements (elements : Nat) : Option Nat :=
  if VALUES_PER_HEADER ≤ elements then some (elements - VALUES_PER_HEADER) else none

def headerAt (header : Nat) : Option ObjectElements :=
  match obj.slots[header]?, obj.slots[header + 1]? with
  | some (.flags flags initializedLength), some (.capacity capacity length) =>
    some ⟨flags, initializedLength, capacity, length⟩
  | _, _ => none

def writeSlots (i : Nat) (slots : List (HeapSlot α)) : Option (NativeObject α) := do
  MOZ_ASSERT (i + slots.length ≤ obj.slots.length)
  MOZ_ASSERT (obj.storage ≠ .emptyElements)
  return { obj with slots := overwrite obj.slots i slots }

def setHeaderAt (header : Nat) (h : ObjectElements) : Option (NativeObject α) := obj.writeSlots header h.slots

def memmove (dst src count : Nat) : Option (NativeObject α) := do
  MOZ_ASSERT (src + count ≤ obj.slots.length)
  if count = 0 then return obj else obj.writeSlots dst (slice obj.slots src count)

def getElementsHeader : Option ObjectElements := do
  obj.headerAt (← fromElements obj.elements_)

def setElementsHeader (h : ObjectElements) : Option (NativeObject α) := do
  obj.setHeaderAt (← fromElements obj.elements_) h

def getUnshiftedElementsHeader : Option Nat := do
  let header ← obj.getElementsHeader
  MOZ_ASSERT (header.numShiftedElements ≤ obj.elements_)
  fromElements (obj.elements_ - header.numShiftedElements)

def hasDynamicElements : Bool := obj.storage = .dynamicElements

def getDenseElement (index : Nat) : Option (Value α) :=
  match obj.slots[obj.elements_ + index]? with
  | some (.value v) => some v
  | _ => none

def setDenseElement (index : Nat) (v : Value α) : Option (NativeObject α) := do
  let header ← obj.getElementsHeader
  MOZ_ASSERT (index < header.initializedLength)
  MOZ_ASSERT (¬header.isCopyOnWrite)
  obj.writeSlots (obj.elements_ + index) [.value v]

def initDenseElement (index : Nat) (v : Value α) : Option (NativeObject α) := do
  let header ← obj.getElementsHeader
  MOZ_ASSERT (index < header.initializedLength)
  MOZ_ASSERT (¬header.isCopyOnWrite)
  MOZ_ASSERT obj.isExtensible
  obj.writeSlots (obj.elements_ + index) [.value v]

def initUndefined (start : Nat) : (count : Nat) → (obj : NativeObject α) → Option (NativeObject α)
  | 0, obj => some obj
  | count + 1, obj => do (← initUndefined start count obj).initDenseElement (start + count) .undefined

def setDenseInitializedLength (length : Nat) : Option (NativeObject α) := do
  MOZ_ASSERT obj.isExtensible
  let header ← obj.getElementsHeader
  MOZ_ASSERT (length ≤ header.capacity)
  MOZ_ASSERT (¬header.isCopyOnWrite)
  obj.setElementsHeader { header with initializedLength := length }

def moveElement (dst src : Nat) : Option (NativeObject α) := obj.memmove (obj.elements_ + dst) (obj.elements_ + src) 1

def moveUp (dst src : Nat) : (count : Nat) → (obj : NativeObject α) → Option (NativeObject α)
  | 0, obj => some obj
  | count + 1, obj => do (← moveUp dst src count obj).moveElement (dst + count) (src + count)

def moveDown (dst src : Nat) : (count : Nat) → (obj : NativeObject α) → Option (NativeObject α)
  | 0, obj => some obj
  | count + 1, obj => do moveDown dst src count (← obj.moveElement (dst + count) (src + count))

def moveDenseElements (needsIncrementalBarrier : Bool) (dstStart srcStart count : Nat) : Option (NativeObject α) := do
  let header ← obj.getElementsHeader
  MOZ_ASSERT (dstStart + count ≤ header.capacity)
  MOZ_ASSERT (srcStart + count ≤ header.initializedLength)
  MOZ_ASSERT (¬header.isCopyOnWrite)
  MOZ_ASSERT obj.isExtensible
  if needsIncrementalBarrier then
    if dstStart < srcStart then moveUp dstStart srcStart count obj else moveDown dstStart srcStart count obj
  else obj.memmove (obj.elements_ + dstStart) (obj.elements_ + srcStart) count

def moveShiftedElements (barrier : Bool) : Option (NativeObject α) := do
  MOZ_ASSERT obj.isExtensible
  let header ← fromElements obj.elements_
  let numShifted := (← obj.headerAt header).numShiftedElements
  MOZ_ASSERT (numShifted > 0)
  let initLength := (← obj.headerAt header).initializedLength
  let newHeader ← obj.getUnshiftedElementsHeader
  let obj ← obj.memmove newHeader header VALUES_PER_HEADER
  let h := (← obj.headerAt newHeader).clearShiftedElements
  let obj ← obj.setHeaderAt newHeader
    { h with capacity := h.capacity + numShifted, initializedLength := h.initializedLength + numShifted }
  let obj := { obj with elements_ := newHeader + VALUES_PER_HEADER }
  let obj ← initUndefined 0 numShifted obj
  let obj ← obj.moveDenseElements barrier 0 numShifted initLength
  obj.setDenseInitializedLength initLength

def maybeMoveShiftedElements (barrier : Bool) : Option (NativeObject α) := do
  MOZ_ASSERT obj.isExtensible
  let header ← obj.getElementsHeader
  MOZ_ASSERT (header.numShiftedElements > 0)
  if header.capacity < header.numAllocatedElements / 3 then obj.moveShiftedElements barrier else return obj

def addShiftedElements (count : Nat) : Option (NativeObject α) := do
  let header ← fromElements obj.elements_
  let obj ← obj.setHeaderAt header (← (← obj.headerAt header).addShiftedElements count)
  let obj := { obj with elements_ := obj.elements_ + count }
  obj.memmove (← fromElements obj.elements_) header VALUES_PER_HEADER

def shiftDenseElementsUnchecked (barrier : Bool) (count : Nat) : Option (NativeObject α) := do
  MOZ_ASSERT obj.isExtensible
  let header ← obj.getElementsHeader
  MOZ_ASSERT (count > 0)
  MOZ_ASSERT (count < header.initializedLength)
  let obj ← (
    if header.numShiftedElements + count > MaxShiftedElements then obj.moveShiftedElements barrier else some obj)
  obj.addShiftedElements count

def tryShiftDenseElements (barrier : Bool) (count : Nat) : Option (Bool × NativeObject α) := do
  MOZ_ASSERT obj.isExtensible
  let header ← obj.getElementsHeader
  if header.initializedLength = count ∨ count > MaxShiftedElements ∨ header.isCopyOnWrite
      ∨ header.hasNonwritableArrayLength then
    return (false, obj)
  else return (true, ← obj.shiftDenseElementsUnchecked barrier count)

def extraToShift (numShifted unusedCapacity toShift : Nat) : Nat :=
  let toShift := min (toShift + unusedCapacity / 2) unusedCapacity
  if numShifted + toShift > MaxShiftedElements then MaxShiftedElements - numShifted else toShift

def prependAndShift (barrier : Bool) (toShift : Nat) : Option (NativeObject α) := do
  let initLen := (← obj.getElementsHeader).initializedLength
  let obj ← obj.setDenseInitializedLength (initLen + toShift)
  let obj ← initUndefined initLen toShift obj
  let obj ← obj.moveDenseElements barrier toShift 0 initLen
  obj.shiftDenseElementsUnchecked barrier toShift

def reserveShiftedElements (barrier : Bool) (count : Nat) : Option (Bool × NativeObject α) := do
  let header ← obj.getElementsHeader
  let numShifted := header.numShiftedElements
  if header.initializedLength ≤ 10 ∨ header.isCopyOnWrite ∨ header.hasNonwritableArrayLength
      ∨ count > MaxShiftedElements then
    return (false, obj)
  else
    MOZ_ASSERT (header.capacity ≥ header.initializedLength)
    let unusedCapacity := header.capacity - header.initializedLength
    let toShift := count - numShifted
    MOZ_ASSERT (toShift ≤ MaxShiftedElements)
    if toShift > unusedCapacity then return (false, obj)
    else
      let toShift := extraToShift numShifted unusedCapacity toShift
      MOZ_ASSERT (count ≤ numShifted + toShift)
      MOZ_ASSERT (numShifted + toShift ≤ MaxShiftedElements)
      MOZ_ASSERT (toShift ≤ unusedCapacity)
      let obj ← obj.prependAndShift barrier toShift
      MOZ_ASSERT ((← obj.getElementsHeader).numShiftedElements = numShifted + toShift)
      return (true, obj)

def unshiftShiftedElements (count : Nat) : Option (NativeObject α) := do
  let header ← fromElements obj.elements_
  MOZ_ASSERT (count ≤ obj.elements_)
  let obj := { obj with elements_ := obj.elements_ - count }
  let newHeader ← fromElements obj.elements_
  let obj ← obj.memmove newHeader header VALUES_PER_HEADER
  obj.setHeaderAt newHeader (← (← obj.headerAt newHeader).unshiftShiftedElements count)

def unshiftDenseElements (count : Nat) : Option (NativeObject α) := do
  let obj ← obj.unshiftShiftedElements count
  initUndefined 0 count obj

def tryUnshiftDenseElements (barrier : Bool) (count : Nat) : Option (Bool × NativeObject α) := do
  MOZ_ASSERT obj.isExtensible
  MOZ_ASSERT (count > 0)
  let header ← obj.getElementsHeader
  let (reserved, obj) ← (
    if count > header.numShiftedElements then obj.reserveShiftedElements barrier count else some (true, obj))
  if reserved then return (true, ← obj.unshiftDenseElements count) else return (false, obj)

end NativeObject

def Mebi : Nat := 2 ^ 20

def BigBuckets : List Nat :=
  [0x100000,  0x200000,  0x300000,  0x400000,  0x500000,  0x600000,
   0x700000,  0x800000,  0x900000,  0xb00000,  0xd00000,  0xf00000,
   0x1100000, 0x1400000, 0x1700000, 0x1a00000, 0x1e00000, 0x2200000,
   0x2700000, 0x2c00000, 0x3200000, 0x3900000, 0x4100000, 0x4a00000,
   0x5400000, 0x5f00000, 0x6b00000, 0x7900000, 0x8900000, 0x9b00000, 0xaf00000, 0xc500000, 0xde00000, 0xfa00000]

def goodElementsAllocationAmount (reqCapacity length : Nat) : Option Nat :=
  if reqCapacity > MAX_DENSE_ELEMENTS_COUNT then none
  else
    let reqAllocated := reqCapacity + VALUES_PER_HEADER
    if reqAllocated < Mebi then
      let amount := RoundUpPow2 reqAllocated
      let goodCapacity := amount - VALUES_PER_HEADER
      let amount :=
        if length ≥ reqCapacity ∧ goodCapacity > length / 3 * 2 then length + VALUES_PER_HEADER else amount
      some (if amount < SLOT_CAPACITY_MIN then SLOT_CAPACITY_MIN else amount)
    else
      match BigBuckets.find? (reqAllocated ≤ ·) with
      | some b => some b
      | none => some MAX_DENSE_ELEMENTS_ALLOCATION

namespace NativeObject

variable {α : Type} (obj : NativeObject α)

def AllocateObjectBuffer (alloc : Allocator) (newAllocated : Nat) : Option (List (HeapSlot α)) :=
  if alloc newAllocated then some (List.replicate newAllocated .uninitialized) else none

def ReallocateObjectBuffer (alloc : Allocator) (oldHeaderSlots oldAllocated newAllocated : Nat)
    : Option (Option (List (HeapSlot α))) := do
  MOZ_ASSERT (oldHeaderSlots = 0)
  MOZ_ASSERT (oldAllocated ≤ obj.slots.length)
  let kept := obj.slots.take (min oldAllocated newAllocated)
  return if alloc newAllocated then some (kept ++ List.replicate (newAllocated - kept.length) .uninitialized) else none

def PodCopy (newHeaderSlots : List (HeapSlot α)) (oldHeaderSlots count : Nat) : Option (List (HeapSlot α)) := do
  MOZ_ASSERT (oldHeaderSlots + count ≤ obj.slots.length)
  MOZ_ASSERT (count ≤ newHeaderSlots.length)
  return overwrite newHeaderSlots 0 (slice obj.slots oldHeaderSlots count)

def setDynamicElements (newHeaderSlots : List (HeapSlot α)) (numShifted newCapacity : Nat)
    : Option (NativeObject α) := do
  let obj : NativeObject α :=
    { obj with slots := newHeaderSlots, elements_ := VALUES_PER_HEADER + numShifted, storage := .dynamicElements }
  obj.setElementsHeader { ← obj.getElementsHeader with capacity := newCapacity }

-- Moves shifted elements before the elements grow, and says whether that makes enough room.
def moveShiftedElementsToGrow (barrier : Bool) (reqCapacity : Nat) : Option (Bool × NativeObject α) := do
  let header ← obj.getElementsHeader
  if header.numShiftedElements > 0 then
    let obj ← (if header.initializedLength ≤ MaxElementsToMoveEagerly then obj.moveShiftedElements barrier
      else obj.maybeMoveShiftedElements barrier)
    let header ← obj.getElementsHeader
    if header.capacity ≥ reqCapacity then return (true, obj)
    else if reqCapacity + header.numShiftedElements ≥ 2 ^ 32 then return (false, ← obj.moveShiftedElements barrier)
    else return (false, obj)
  else return (false, obj)

def allocationToGrow (header : ObjectElements) (reqCapacity : Nat) : Option (Option Nat) := do
  let numShifted := header.numShiftedElements
  if header.hasNonwritableArrayLength then
    MOZ_ASSERT (reqCapacity ≤ header.length)
    MOZ_ASSERT (reqCapacity ≤ MAX_DENSE_ELEMENTS_COUNT)
    return some (reqCapacity + numShifted + VALUES_PER_HEADER)
  else return goodElementsAllocationAmount (reqCapacity + numShifted) header.length

def bufferToGrow (alloc : Allocator) (header : ObjectElements) (newAllocated : Nat)
    : Option (Option (List (HeapSlot α))) := do
  let oldHeaderSlots ← obj.getUnshiftedElementsHeader
  if obj.hasDynamicElements then
    MOZ_ASSERT (header.capacity ≤ MAX_DENSE_ELEMENTS_COUNT)
    let oldAllocated := header.capacity + VALUES_PER_HEADER + header.numShiftedElements
    obj.ReallocateObjectBuffer alloc oldHeaderSlots oldAllocated newAllocated
  else
    match AllocateObjectBuffer alloc newAllocated with
    | none => return none
    | some newHeaderSlots =>
      let count := VALUES_PER_HEADER + header.initializedLength + header.numShiftedElements
      return some (← obj.PodCopy newHeaderSlots oldHeaderSlots count)

def reallocateToGrow (alloc : Allocator) (reqCapacity : Nat) : Option (Bool × NativeObject α) := do
  let header ← obj.getElementsHeader
  let numShifted := header.numShiftedElements
  let oldCapacity := header.capacity
  MOZ_ASSERT (oldCapacity < reqCapacity)
  match ← allocationToGrow header reqCapacity with
  | none => return (false, obj)
  | some newAllocated =>
    let newCapacity := newAllocated - VALUES_PER_HEADER - numShifted
    MOZ_ASSERT (newCapacity > oldCapacity ∧ newCapacity ≥ reqCapacity)
    MOZ_ASSERT (newCapacity ≤ MAX_DENSE_ELEMENTS_COUNT)
    match ← obj.bufferToGrow alloc header newAllocated with
    | none => return (false, obj)
    | some newHeaderSlots => return (true, ← obj.setDynamicElements newHeaderSlots numShifted newCapacity)

def growElements (alloc : Allocator) (barrier : Bool) (reqCapacity : Nat) : Option (Bool × NativeObject α) := do
  MOZ_ASSERT obj.isExtensible
  MOZ_ASSERT (¬(← obj.getElementsHeader).isCopyOnWrite)
  let (enough, obj) ← obj.moveShiftedElementsToGrow barrier reqCapacity
  if enough then return (true, obj) else obj.reallocateToGrow alloc reqCapacity

def reallocateToShrink (alloc : Allocator) (reqCapacity : Nat) : Option (NativeObject α) := do
  let header ← obj.getElementsHeader
  let numShifted := header.numShiftedElements
  let oldCapacity := header.capacity
  MOZ_ASSERT (reqCapacity < oldCapacity)
  let newAllocated ← goodElementsAllocationAmount (reqCapacity + numShifted) 0
  MOZ_ASSERT (oldCapacity ≤ MAX_DENSE_ELEMENTS_COUNT)
  let oldAllocated := oldCapacity + VALUES_PER_HEADER + numShifted
  if newAllocated = oldAllocated then return obj
  else
    MOZ_ASSERT (newAllocated > VALUES_PER_HEADER)
    let newCapacity := newAllocated - VALUES_PER_HEADER - numShifted
    MOZ_ASSERT (newCapacity ≤ MAX_DENSE_ELEMENTS_COUNT)
    let oldHeaderSlots ← obj.getUnshiftedElementsHeader
    match ← obj.ReallocateObjectBuffer alloc oldHeaderSlots oldAllocated newAllocated with
    | none => return obj
    | some newHeaderSlots => obj.setDynamicElements newHeaderSlots numShifted newCapacity

def shrinkElements (alloc : Allocator) (barrier : Bool) (reqCapacity : Nat) : Option (NativeObject α) := do
  let header ← obj.getElementsHeader
  MOZ_ASSERT (reqCapacity ≥ header.initializedLength)
  MOZ_ASSERT (¬header.isCopyOnWrite)
  if ¬obj.hasDynamicElements then return obj
  else
    let obj ← (if header.numShiftedElements > 0 then obj.maybeMoveShiftedElements barrier else some obj)
    obj.reallocateToShrink alloc reqCapacity

def shrinkCapacityToInitializedLength (alloc : Allocator) (barrier : Bool) : Option (NativeObject α) := do
  let header ← obj.getElementsHeader
  let obj ← (if header.numShiftedElements > 0 then obj.moveShiftedElements barrier else some obj)
  let header ← obj.getElementsHeader
  let len := header.initializedLength
  MOZ_ASSERT (header.capacity ≥ len)
  if header.capacity = len then return obj
  else
    let obj ← obj.shrinkElements alloc barrier len
    obj.setElementsHeader { ← obj.getElementsHeader with capacity := len }

def CopyElementsForWrite (alloc : Allocator) : Option (Bool × NativeObject α) := do
  let header ← obj.getElementsHeader
  MOZ_ASSERT header.isCopyOnWrite
  MOZ_ASSERT obj.isExtensible
  let initlen := header.initializedLength
  match goodElementsAllocationAmount initlen 0 with
  | none => return (false, obj)
  | some newAllocated =>
    let newCapacity := newAllocated - VALUES_PER_HEADER
    MOZ_ASSERT (newCapacity ≤ MAX_DENSE_ELEMENTS_COUNT)
    match AllocateObjectBuffer alloc newAllocated with
    | none => return (false, obj)
    | some newHeaderSlots =>
      let newHeaderSlots ← obj.PodCopy newHeaderSlots (← fromElements obj.elements_) (VALUES_PER_HEADER + initlen)
      let obj ← obj.setDynamicElements newHeaderSlots 0 newCapacity
      return (true, ← obj.setElementsHeader (← (← obj.getElementsHeader).clearCopyOnWrite))

def maybeCopyElementsForWrite (alloc : Allocator) : Option (Bool × NativeObject α) := do
  if (← obj.getElementsHeader).isCopyOnWrite then obj.CopyElementsForWrite alloc else return (true, obj)

def initHolesFrom (initlen : Nat) : (count : Nat) → (obj : NativeObject α) → Option (NativeObject α)
  | 0, obj => some obj
  | count + 1, obj => do
    let obj ← initHolesFrom initlen count obj
    obj.writeSlots (obj.elements_ + initlen + count) [.value .elementsHole]

-- The sum does not overflow where this is called.
def ensureDenseInitializedLengthNoPackedCheck (index extra : Nat) : Option (NativeObject α) := do
  let header ← obj.getElementsHeader
  MOZ_ASSERT (¬header.isCopyOnWrite)
  MOZ_ASSERT (index + extra ≤ header.capacity)
  let initlen := header.initializedLength
  if initlen < index + extra then
    MOZ_ASSERT obj.isExtensible
    let obj ← initHolesFrom initlen (index + extra - initlen) obj
    obj.setElementsHeader { header with initializedLength := index + extra }
  else return obj

def countDense : (len i : Nat) → (minimalDenseCount : Nat) → Option Bool
  | 0, _, _ => some false
  | len + 1, i, minimalDenseCount => do
    match ← obj.getDenseElement i with
    | .elementsHole => countDense len (i + 1) minimalDenseCount
    | _ => if minimalDenseCount - 1 = 0 then some true else countDense len (i + 1) (minimalDenseCount - 1)

def willBeSparseElements (requiredCapacity newElementsHint : Nat) : Option Bool := do
  MOZ_ASSERT (requiredCapacity > MIN_SPARSE_INDEX)
  let header ← obj.getElementsHeader
  let cap := header.capacity
  MOZ_ASSERT (requiredCapacity ≥ cap)
  if requiredCapacity > MAX_DENSE_ELEMENTS_COUNT then return true
  else
    let minimalDenseCount := requiredCapacity / SPARSE_DENSITY_RATIO
    if newElementsHint ≥ minimalDenseCount then return false
    else
      let minimalDenseCount := minimalDenseCount - newElementsHint
      if minimalDenseCount > cap then return true
      else return !(← obj.countDense header.initializedLength 0 minimalDenseCount)

inductive DenseElementResult where
  | Failure
  | Success
  | Incomplete
deriving DecidableEq

def extendDenseElements (alloc : Allocator) (barrier : Bool) (requiredCapacity extra : Nat)
    : Option (DenseElementResult × NativeObject α) := do
  MOZ_ASSERT (¬(← obj.getElementsHeader).isCopyOnWrite)
  MOZ_ASSERT obj.isExtensible
  if obj.isIndexed then return (.Incomplete, obj)
  else
    let sparse ← (
      if requiredCapacity > MIN_SPARSE_INDEX then obj.willBeSparseElements requiredCapacity extra else some false)
    if sparse then return (.Incomplete, obj)
    else
      let (grown, obj) ← obj.growElements alloc barrier requiredCapacity
      return (if grown then .Success else .Failure, obj)

def extendAndInitialize (alloc : Allocator) (barrier : Bool) (requiredCapacity index extra : Nat)
    : Option (DenseElementResult × NativeObject α) := do
  let (result, obj) ← obj.extendDenseElements alloc barrier requiredCapacity extra
  if result ≠ .Success then return (result, obj)
  else return (.Success, ← obj.ensureDenseInitializedLengthNoPackedCheck index extra)

def ensureDenseElements (copyAlloc alloc : Allocator) (barrier : Bool) (index extra : Nat)
    : Option (DenseElementResult × NativeObject α) := do
  MOZ_ASSERT obj.isExtensible
  let (copied, obj) ← obj.maybeCopyElementsForWrite copyAlloc
  if ¬copied then return (.Failure, obj)
  else
    let currentCapacity := (← obj.getElementsHeader).capacity
    if extra = 1 then
      if index < currentCapacity then return (.Success, ← obj.ensureDenseInitializedLengthNoPackedCheck index 1)
      else
        let requiredCapacity := (index + 1) % 2 ^ 32
        if requiredCapacity = 0 then return (.Incomplete, obj)
        else obj.extendAndInitialize alloc barrier requiredCapacity index extra
    else
      let requiredCapacity := (index + extra) % 2 ^ 32
      if requiredCapacity < index then return (.Incomplete, obj)
      else if requiredCapacity ≤ currentCapacity then
        return (.Success, ← obj.ensureDenseInitializedLengthNoPackedCheck index extra)
      else obj.extendAndInitialize alloc barrier requiredCapacity index extra

end NativeObject

end SpiderMonkey.Elements
