import Mathlib.Data.Int.NatAbs
import Mathlib.Logic.Function.Basic

/-!
This module contains the runs of `Promise.all`, `Promise.allSettled` and `Promise.any`: the iteration
over the elements, the element functions, and the array of their results.
-/

namespace SpiderMonkey

inductive CombinatorKind where
  | all
  | allSettled
  | any
deriving DecidableEq, Repr

inductive ElementFunctionKind where
  | resolve
  | reject
deriving DecidableEq, Repr

-- `hole` is what a deleted element leaves, and `settled` the object with the properties `status` and
-- `value` or `reason`. `other` is every other value.
inductive JSValue (α : Type) where
  | undefined
  | hole
  | settled (kind : ElementFunctionKind) (valueOrReason : JSValue α)
  | other (value : α)
deriving DecidableEq, Repr

inductive IterationState where
  | iterating
  | done
  | failed
deriving DecidableEq, Repr

-- A call of an element function: `deadWrapper` and `outOfMemory` are the errors it can meet on its
-- way, the last one in the creation of an `AggregateError`.
structure ElementCall (α : Type) where
  index : Nat
  function : ElementFunctionKind
  value : JSValue α
  deadWrapper : Bool
  outOfMemory : Bool
  aggregateErrorFails : Bool
deriving DecidableEq, Repr

inductive CombinatorEvent (α : Type) where
  | nextElement (pushFails functionFails : Bool)
  | iterationFails
  | iterationDone (aggregateErrorFails : Bool)
  | callElementFunction (call : ElementCall α)
  | scriptChangesArray (values : List (JSValue α))
deriving Repr

-- `values` has the initialized elements of the values array, and `functionData` says of an element
-- function that it still has its data holder. `calls`, newest first, `stores`, `inBounds` and
-- `resolvedWith` are a record of the run: the calls of element functions, the indexes given to
-- `setElement`, whether every element that was read or written was an initialized one, and the
-- arrays that the result capability was resolved with, or rejected with for `any`.
structure PromiseCombinator (α : Type) where
  kind : CombinatorKind
  iteration : IterationState
  remainingCount : Int
  values : List (JSValue α)
  index : Nat
  functionData : Nat → ElementFunctionKind → Bool
  calls : List (ElementCall α)
  stores : List Nat
  inBounds : Bool
  resolvedWith : List (List (JSValue α))

def MAX_DENSE_ELEMENTS_COUNT : Nat := 2 ^ 28 - 1 - 2

namespace PromiseCombinator

variable {α : Type} [DecidableEq α]

def New (kind : CombinatorKind) : PromiseCombinator α where
  kind := kind
  iteration := .iterating
  remainingCount := 1
  values := []
  index := 0
  functionData _ _ := false
  calls := []
  stores := []
  inBounds := true
  resolvedWith := []

def isElementFunction (kind : CombinatorKind) (function : ElementFunctionKind) : Bool :=
  match kind, function with
  | .all, .resolve => true
  | .all, .reject => false
  | .allSettled, _ => true
  | .any, .resolve => false
  | .any, .reject => true

def increaseRemainingCount (s : PromiseCombinator α) : PromiseCombinator α :=
  { s with remainingCount := s.remainingCount + 1 }

def decreaseRemainingCount (s : PromiseCombinator α) : PromiseCombinator α :=
  { s with remainingCount := s.remainingCount - 1 }

def pushUndefined (s : PromiseCombinator α) : PromiseCombinator α :=
  { s with values := s.values ++ [.undefined] }

def NewPromiseCombinatorElementFunctions (s : PromiseCombinator α) : PromiseCombinator α :=
  { s with functionData := Function.update s.functionData s.index (isElementFunction s.kind) }

def failIteration (s : PromiseCombinator α) : PromiseCombinator α :=
  { s with iteration := .failed }

def getResolveAndReject (s : PromiseCombinator α) (pushFails functionFails : Bool) :
    PromiseCombinator α :=
  if pushFails || MAX_DENSE_ELEMENTS_COUNT ≤ s.values.length then
    s.failIteration
  else if functionFails then
    s.pushUndefined.failIteration
  else
    let s := s.pushUndefined.NewPromiseCombinatorElementFunctions.increaseRemainingCount
    { s with index := s.index + 1 }

def settleResult (s : PromiseCombinator α) (aggregateErrorFails : Bool) : PromiseCombinator α :=
  if s.kind = .any ∧ aggregateErrorFails then s
  else { s with resolvedWith := s.resolvedWith ++ [s.values] }

def finishIteration (s : PromiseCombinator α) (aggregateErrorFails : Bool) : PromiseCombinator α :=
  let s := { s with iteration := .done }.decreaseRemainingCount
  if s.remainingCount = 0 then s.settleResult aggregateErrorFails else s

def setElement (s : PromiseCombinator α) (index : Nat) (value : JSValue α) : PromiseCombinator α :=
  { s with
    values := s.values.set index value
    stores := s.stores ++ [index]
    inBounds := s.inBounds && index < s.values.length }

-- What a read beyond the initialized elements gives is not known; `hole` stands for it.
def getDenseElement (s : PromiseCombinator α) (index : Nat) : JSValue α :=
  (s.values[index]?).getD .hole

def readElement (s : PromiseCombinator α) (index : Nat) : PromiseCombinator α :=
  { s with inBounds := s.inBounds && index < s.values.length }

def storeResult (s : PromiseCombinator α) (index : Nat) (value : JSValue α)
    (aggregateErrorFails : Bool) : PromiseCombinator α :=
  let s := (s.setElement index value).decreaseRemainingCount
  if s.remainingCount = 0 then s.settleResult aggregateErrorFails else s

-- `PromiseAllResolveElementFunction` and `PromiseAnyRejectElementFunction`, after the check that the
-- function was not called before. The memory is that of the wrapper of the value.
def allElementFunction (s : PromiseCombinator α) (call : ElementCall α) : PromiseCombinator α :=
  if call.deadWrapper || call.outOfMemory then s
  else s.storeResult call.index call.value call.aggregateErrorFails

def allSettledElementFunction (s : PromiseCombinator α) (call : ElementCall α) :
    PromiseCombinator α :=
  if call.deadWrapper then s
  else if s.getDenseElement call.index ≠ .undefined then s.readElement call.index
  else if call.outOfMemory then s.readElement call.index
  else (s.readElement call.index).storeResult call.index (.settled call.function call.value)
    call.aggregateErrorFails

def callElementFunction (s : PromiseCombinator α) (call : ElementCall α) : PromiseCombinator α :=
  let called := { s with calls := call :: s.calls }
  if s.functionData call.index call.function then
    let s := { called with
      functionData := Function.update s.functionData call.index
        (Function.update (s.functionData call.index) call.function false) }
    match s.kind with
    | .allSettled => s.allSettledElementFunction call
    | _ => s.allElementFunction call
  else
    called

def step (s : PromiseCombinator α) (event : CombinatorEvent α) : Option (PromiseCombinator α) :=
  match event with
  | .nextElement pushFails functionFails =>
    if s.iteration = .iterating then some (s.getResolveAndReject pushFails functionFails) else none
  | .iterationFails => if s.iteration = .iterating then some s.failIteration else none
  | .iterationDone aggregateErrorFails =>
    if s.iteration = .iterating then some (s.finishIteration aggregateErrorFails) else none
  | .callElementFunction call =>
    if call.index < s.index ∧ isElementFunction s.kind call.function then
      some (s.callElementFunction call)
    else none
  | .scriptChangesArray values =>
    if s.resolvedWith ≠ [] then some { s with values := values } else none

def run (kind : CombinatorKind) (events : List (CombinatorEvent α)) :
    Option (PromiseCombinator α) :=
  events.foldlM step (New kind)

def resultOf (kind : CombinatorKind) (call : ElementCall α) : JSValue α :=
  match kind with
  | .allSettled => .settled call.function call.value
  | _ => call.value

def delivers (earlier : List (ElementCall α)) (call : ElementCall α) : Bool :=
  !call.deadWrapper && !call.outOfMemory
    && earlier.all (fun c => c.index ≠ call.index || c.function ≠ call.function)

def firstResult (kind : CombinatorKind) (index : Nat) : List (ElementCall α) → Option (JSValue α)
  | [] => none
  | call :: earlier =>
    match firstResult kind index earlier with
    | some value => some value
    | none =>
      if call.index = index ∧ delivers earlier call then some (resultOf kind call) else none

end PromiseCombinator

end SpiderMonkey
