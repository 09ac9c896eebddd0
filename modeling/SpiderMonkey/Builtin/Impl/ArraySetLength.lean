import SpiderMonkey.Proxy.Impl.PropertyDescriptor
import SpiderMonkey.Vm.Impl.NativeObject

/-!
This module contains how the length of an array is set. What can fail on the way is decided by the environment, with an
index where it is done for one.
-/

namespace SpiderMonkey.Elements

def RemoveElementsFastLimit : Nat := 2 ^ 24

inductive LengthValue where
  | finite (d : Rat)
  | notFinite
  | throws
deriving DecidableEq

structure Environment where
  copyAlloc : Allocator
  shrinkAlloc : Allocator
  barrier : Bool
  MaybeInIteration : Bool
  removeProperty : Nat → Bool
  SuppressDeletedProperty : Nat → Bool
  GetPropertyKeys : Bool
  CheckForInterrupt : Nat → Bool
  append : Nat → Bool
  resize : Bool
  changeProperty : Bool

inductive ErrorNumber where
  | JSMSG_CANT_REDEFINE_PROP
  | JSMSG_CANT_REDEFINE_ARRAY_LENGTH
  | JSMSG_CANT_TRUNCATE_ARRAY
deriving DecidableEq

inductive Outcome where
  | exception
  | fail (code : ErrorNumber)
  | succeed
deriving DecidableEq

inductive DeleteResult where
  | exception
  | failCantDelete
  | succeed
deriving DecidableEq

inductive Deletion where
  | exception
  | stopped (newLen : Nat)
  | finished
deriving DecidableEq

namespace ObjectElements

variable (h : ObjectElements)

def isSealed : Bool := h.flags &&& SEALED ≠ 0
def isFrozen : Bool := h.flags &&& FROZEN ≠ 0

def elementAttributes : PropertyAttributes :=
  if h.isFrozen then { PropertyAttributes.empty with enumerate := true, permanent := true, readonly := true }
  else if h.isSealed then { PropertyAttributes.empty with enumerate := true, permanent := true }
  else { PropertyAttributes.empty with enumerate := true }

def setNonwritableArrayLength : Option ObjectElements := do
  MOZ_ASSERT (h.capacity = h.initializedLength)
  MOZ_ASSERT (h.numShiftedElements = 0)
  MOZ_ASSERT (¬h.isCopyOnWrite)
  return { h with flags := h.flags ||| NONWRITABLE_ARRAY_LENGTH }

end ObjectElements

namespace NativeObject

variable {α : Type} (obj : NativeObject α)

def containsDenseElement (index : Nat) : Option Bool := do
  let header ← obj.getElementsHeader
  if index < header.initializedLength then
    match ← obj.getDenseElement index with
    | .elementsHole => return false
    | _ => return true
  else return false

def denseIndexes : (count : Nat) → Option (List Nat)
  | 0 => some []
  | count + 1 => do
    let indexes ← denseIndexes count
    if ← obj.containsDenseElement count then return indexes ++ [count] else return indexes

def setDenseInitializedLengthInternal (length : Nat) : Option (NativeObject α) := do
  let header ← obj.getElementsHeader
  MOZ_ASSERT (length ≤ header.capacity)
  MOZ_ASSERT (¬header.isCopyOnWrite)
  MOZ_ASSERT (¬header.isFrozen)
  obj.setElementsHeader { header with initializedLength := length }

def setDenseInitializedLengthMaybeNonExtensible (alloc : Allocator) (barrier : Bool) (length : Nat)
    : Option (NativeObject α) := do
  let obj ← obj.setDenseInitializedLengthInternal length
  if ¬obj.isExtensible then obj.shrinkCapacityToInitializedLength alloc barrier else return obj

end NativeObject

-- The indexed properties are those that are no dense elements.
structure ArrayObject (α Object : Type) where
  elements : NativeObject α
  properties : List (Nat × Property Object)
  lengthReadonly : Bool
deriving DecidableEq

inductive OwnProperty (α Object : Type) where
  | dense (v : Value α)
  | shape (p : Property Object)
deriving DecidableEq

namespace ArrayObject

variable {α Object : Type} (arr : ArrayObject α Object) (env : Environment)

def NativeLookupOwnProperty (index : Nat) : Option (Option (OwnProperty α Object)) := do
  if ← arr.elements.containsDenseElement index then return some (.dense (← arr.elements.getDenseElement index))
  else return (arr.properties.lookup index).map .shape

def GetPropertyAttributes (prop : OwnProperty α Object) : Option PropertyAttributes := do
  match prop with
  | .dense _ => return (← arr.elements.getElementsHeader).elementAttributes
  | .shape (.data _ writable enumerable configurable) =>
    return { PropertyAttributes.empty with enumerate := enumerable, readonly := !writable, permanent := !configurable }
  | .shape (.accessor _ _ enumerable configurable) =>
    return { PropertyAttributes.empty with
      enumerate := enumerable
      permanent := !configurable
      getter := true
      setter := true }

def removeProperty (index : Nat) : ArrayObject α Object :=
  { arr with properties := arr.properties.filter (·.1 ≠ index) }

def DeleteElement (index : Nat) : Option (DeleteResult × ArrayObject α Object) := do
  match ← arr.NativeLookupOwnProperty index with
  | none => return (.succeed, arr)
  | some prop =>
    if (← arr.GetPropertyAttributes prop).permanent then return (.failCantDelete, arr)
    else
      let suppressed := if env.SuppressDeletedProperty index then DeleteResult.succeed else .exception
      match prop with
      | .dense _ =>
        let (copied, elements) ← arr.elements.maybeCopyElementsForWrite env.copyAlloc
        if ¬copied then return (.exception, { arr with elements })
        else return (suppressed, { arr with elements := ← elements.setDenseElement index .elementsHole })
      | .shape _ =>
        if ¬env.removeProperty index then return (.exception, arr)
        else return (suppressed, arr.removeProperty index)

def deleteDown (newLen : Nat) : (gap : Nat) → (arr : ArrayObject α Object) → Option (Deletion × ArrayObject α Object)
  | 0, arr => some (.finished, arr)
  | gap + 1, arr => do
    let oldLen := newLen + gap
    let (deleted, arr) ← arr.DeleteElement env oldLen
    match deleted with
    | .exception => return (.exception, arr)
    | .failCantDelete => return (.stopped (oldLen + 1), arr)
    | .succeed => deleteDown newLen gap arr

def GetPropertyKeys : Option (List Nat) := do
  let header ← arr.elements.getElementsHeader
  return (← arr.elements.denseIndexes header.initializedLength) ++ arr.properties.map Prod.fst

def siftIndexes (newLen oldLen : Nat) : (props : List Nat) → Option (List Nat)
  | [] => some []
  | index :: props => do
    guard (env.CheckForInterrupt index)
    if index ≥ newLen ∧ index < oldLen then
      guard (env.append index)
      return index :: (← siftIndexes newLen oldLen props)
    else siftIndexes newLen oldLen props

def deleteSorted : (indexes : List Nat) → (index : Nat) → (arr : ArrayObject α Object)
    → Option (Deletion × ArrayObject α Object)
  | [], _, arr => some (.finished, arr)
  | next :: indexes, index, arr => do
    MOZ_ASSERT (next < index)
    let (deleted, arr) ← arr.DeleteElement env next
    match deleted with
    | .exception => return (.exception, arr)
    | .failCantDelete => return (.stopped (next + 1), arr)
    | .succeed => deleteSorted indexes next arr

def deleteIndexes (newLen oldLen : Nat) : Option (Deletion × ArrayObject α Object) := do
  let keys ← arr.GetPropertyKeys
  if ¬env.GetPropertyKeys then return (.exception, arr)
  else
    match siftIndexes env newLen oldLen keys with
    | none => return (.exception, arr)
    | some indexes =>
      if ¬env.resize then return (.exception, arr)
      else deleteSorted env (indexes.mergeSort (fun a b => decide (b ≤ a))) (2 ^ 32 - 1) arr

def truncateDense (newLen : Nat) : Option (Deletion × ArrayObject α Object) := do
  let (copied, elements) ← arr.elements.maybeCopyElementsForWrite env.copyAlloc
  if ¬copied then return (.exception, { arr with elements })
  else
    let header ← elements.getElementsHeader
    let oldCapacity := header.capacity
    let oldInitializedLength := header.initializedLength
    MOZ_ASSERT (oldCapacity ≥ oldInitializedLength)
    let elements ← (if oldInitializedLength > newLen then
        elements.setDenseInitializedLengthMaybeNonExtensible env.shrinkAlloc env.barrier newLen else some elements)
    let elements ← (if oldCapacity > newLen then
        if elements.isExtensible then elements.shrinkElements env.shrinkAlloc env.barrier newLen else do
          let header ← elements.getElementsHeader
          MOZ_ASSERT (header.initializedLength = header.capacity)
          return elements
      else some elements)
    return (.finished, { arr with elements })

def deleteElements (newLen oldLen : Nat) : Option (Deletion × ArrayObject α Object) := do
  if newLen ≥ oldLen then return (.finished, arr)
  else
    let header ← arr.elements.getElementsHeader
    if ¬arr.elements.isIndexed ∧ ¬env.MaybeInIteration ∧ ¬header.isSealed then arr.truncateDense env newLen
    else if oldLen - newLen < RemoveElementsFastLimit then deleteDown env newLen (oldLen - newLen) arr
    else arr.deleteIndexes env newLen oldLen

def setLength (length : Nat) : Option (ArrayObject α Object) := do
  let header ← arr.elements.getElementsHeader
  MOZ_ASSERT (¬header.hasNonwritableArrayLength)
  MOZ_ASSERT (length ≠ header.length → ¬header.isFrozen)
  return { arr with elements := ← arr.elements.setElementsHeader { header with length } }

def setNonWritableLength : Option (ArrayObject α Object) := do
  let elements ← arr.elements.shrinkCapacityToInitializedLength env.shrinkAlloc env.barrier
  let header ← (← elements.getElementsHeader).setNonwritableArrayLength
  return { arr with elements := ← elements.setElementsHeader header }

def synchronizeElements (readonly : Bool) (newLen : Nat) : Option (ArrayObject α Object) := do
  let header ← arr.elements.getElementsHeader
  let elements ← arr.elements.setElementsHeader
    { header with initializedLength := min header.initializedLength newLen }
  let elements ← (if ¬elements.isExtensible then elements.shrinkCapacityToInitializedLength env.shrinkAlloc env.barrier
    else some elements)
  let arr := { arr with elements }
  if readonly then arr.setNonWritableLength env else return arr

def defineLength (readonly : Bool) (newLen : Nat) (succeeded : Bool) : Option (Outcome × ArrayObject α Object) := do
  let arr ← arr.setLength newLen
  if readonly ∧ ¬env.changeProperty then return (.exception, arr)
  else
    let arr := if readonly then { arr with lengthReadonly := true } else arr
    let arr ← arr.synchronizeElements env readonly newLen
    if ¬succeeded then return (.fail .JSMSG_CANT_TRUNCATE_ARRAY, arr) else return (.succeed, arr)

def redefineLength (readonly : Bool) (newLen oldLen : Nat) : Option (Outcome × ArrayObject α Object) := do
  let (deletion, arr) ← arr.deleteElements env newLen oldLen
  match deletion with
  | .exception => return (.exception, arr)
  | .stopped newLen => arr.defineLength env readonly newLen false
  | .finished => arr.defineLength env readonly newLen true

end ArrayObject

def ToUint32 : LengthValue → Option Nat
  | .finite d => some (d.num.tdiv d.den % 2 ^ 32).toNat
  | .notFinite => some 0
  | .throws => none

def requestedLength (ignoreValue : Bool) (length : Nat) (value : LengthValue) : Option Nat := do
  if ignoreValue then return length
  else
    let newLen ← ToUint32 value
    guard (value = .finite newLen)
    return newLen

def breaksInvariants (attrs : PropertyAttributes) (lengthIsWritable : Bool) : Bool :=
  (!attrs.permanent && !attrs.ignorePermanent) || (attrs.enumerate && !attrs.ignoreEnumerate) || attrs.getter
    || attrs.setter || (!lengthIsWritable && !attrs.readonly && !attrs.ignoreReadonly)

namespace ArrayObject

variable {α Object : Type} (arr : ArrayObject α Object) (env : Environment)

def ArraySetLength (attrs : PropertyAttributes) (value : LengthValue) : Option (Outcome × ArrayObject α Object) := do
  let (copied, elements) ← arr.elements.maybeCopyElementsForWrite env.copyAlloc
  let arr := { arr with elements }
  if ¬copied then return (.exception, arr)
  else
    let header ← arr.elements.getElementsHeader
    match requestedLength attrs.ignoreValue header.length value with
    | none => return (.exception, arr)
    | some newLen =>
      let lengthIsWritable := !header.hasNonwritableArrayLength
      MOZ_ASSERT (arr.lengthReadonly = !lengthIsWritable)
      let oldLen := header.length
      if breaksInvariants attrs lengthIsWritable then return (.fail .JSMSG_CANT_REDEFINE_PROP, arr)
      else if ¬lengthIsWritable then
        if newLen = oldLen then return (.succeed, arr) else return (.fail .JSMSG_CANT_REDEFINE_ARRAY_LENGTH, arr)
      else arr.redefineLength env attrs.readonly newLen oldLen

end ArrayObject

end SpiderMonkey.Elements
