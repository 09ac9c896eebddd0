import Mathlib.Logic.Function.Basic
import SpiderMonkey.Jit.Impl.LinearSum

/-!
This module contains bounds checks, the machine code of one, and the elimination of the checks that
another check covers.
-/

namespace SpiderMonkey

structure MBoundsCheck where
  index : MDefinition
  length : MDefinition
  minimum : Int32
  maximum : Int32
  fallible : Bool
  isMovable : Bool
  numDominated : Nat
deriving DecidableEq, Repr

namespace MBoundsCheck

def passes (check : MBoundsCheck) (index length : Int) : Prop :=
  0 ≤ index + check.minimum.toInt ∧ index + check.maximum.toInt < length

instance (check : MBoundsCheck) (index length : Int) : Decidable (check.passes index length) :=
  inferInstanceAs (Decidable (_ ∧ _))

def indexSum (check : MBoundsCheck) : SimpleLinearSum := ExtractLinearSum check.index .unknown

end MBoundsCheck

-- `bailoutCmp32(BelowOrEqual, length, temp)`: the code goes on when `temp` is below as unsigned.
def belowUnsigned (temp length : Int32) : Bool := temp.toUInt32 < length.toUInt32

def branchAdd32 (imm temp : Int32) : Option Int32 := SafeAdd temp imm

def underflowCheckMin (min max temp : Int32) : Option (Int32 × Int32) := do
  let temp ← branchAdd32 min temp
  if temp < 0 then none
  else
    match SafeSub max min with
    | some diff => some (temp, diff)
    | none => some (temp - min, max)

def underflowCheck (min max temp : Int32) : Option (Int32 × Int32) :=
  if min = max then some (temp, max)
  else if min = 0 then if temp < 0 then none else some (temp, max)
  else underflowCheckMin min max temp

def addMaximum (max temp : Int32) : Option Int32 :=
  if max = 0 then some temp
  else if max < 0 then branchAdd32 max temp
  else some (temp + max)

def visitBoundsCheckRangeRegister (min max index length : Int32) : Bool :=
  match underflowCheck min max index with
  | none => false
  | some (temp, max) =>
    match addMaximum max temp with
    | none => false
    | some temp => belowUnsigned temp length

def visitBoundsCheckRange (min max index length : Int32) (isConstant : Bool) : Bool :=
  match SafeAdd index min, SafeAdd index max with
  | some nmin, some nmax =>
    if isConstant && nmin ≥ 0 then belowUnsigned nmax length
    else visitBoundsCheckRangeRegister min max index length
  | _, _ => visitBoundsCheckRangeRegister min max index length

structure BoundsCheckInfo where
  check : Nat
  validEnd : Nat
deriving DecidableEq, Repr

-- `boundsCheck` has the bounds checks of the graph by their identity and `checks` is the map from
-- hash numbers. `eliminated` has the discarded checks, each with the identity of the check that
-- covers it.
structure RedundantChecks where
  boundsCheck : Nat → MBoundsCheck
  checks : Nat → Option BoundsCheckInfo
  eliminated : List (Nat × MBoundsCheck)

structure BoundsCheckVisit where
  blockIndex : Nat
  check : Nat
  outOfMemory : Bool
deriving DecidableEq, Repr

namespace RedundantChecks

-- `address` has the addresses of the definitions. A hash number has 32 bits.
def BoundsCheckHashIgnoreOffset (address : MDefinition → Nat) (check : MBoundsCheck) : Nat :=
  (match check.indexSum.term with
    | some term => address term ^^^ address check.length
    | none => 0 ^^^ address check.length) % 2 ^ 32

def putCheck (s : RedundantChecks) (hash : Nat) (info : BoundsCheckInfo) (outOfMemory : Bool) :
    Option RedundantChecks :=
  if outOfMemory then none else some { s with checks := Function.update s.checks hash (some info) }

def FindDominatingBoundsCheck (address : MDefinition → Nat) (s : RedundantChecks)
    (visit : BoundsCheckVisit) : Option (RedundantChecks × Nat) :=
  let check := s.boundsCheck visit.check
  let hash := BoundsCheckHashIgnoreOffset address check
  let info : BoundsCheckInfo := ⟨visit.check, visit.blockIndex + check.numDominated⟩
  match s.checks hash with
  | none => (s.putCheck hash info visit.outOfMemory).map (fun s => (s, visit.check))
  | some p =>
    if visit.blockIndex ≥ p.validEnd then
      (s.putCheck hash info visit.outOfMemory).map (fun s => (s, visit.check))
    else
      some (s, p.check)

def coverBoth (constantA constantB : Int32) (dominating dominated : MBoundsCheck) :
    Option MBoundsCheck := do
  let minimumA ← SafeAdd constantA dominating.minimum
  let maximumA ← SafeAdd constantA dominating.maximum
  let minimumB ← SafeAdd constantB dominated.minimum
  let maximumB ← SafeAdd constantB dominated.maximum
  let newMinimum ← SafeSub (min minimumA minimumB) constantA
  let newMaximum ← SafeSub (max maximumA maximumB) constantA
  some { dominating with minimum := newMinimum, maximum := newMaximum }

def mergeChecks (s : RedundantChecks) (dominating dominated : Nat) : Option RedundantChecks :=
  let checkA := s.boundsCheck dominating
  let checkB := s.boundsCheck dominated
  if dominating = dominated then some s
  else if checkA.length ≠ checkB.length then some s
  else if checkA.indexSum.term ≠ checkB.indexSum.term then some s
  else
    (coverBoth checkA.indexSum.constant checkB.indexSum.constant checkA checkB).map (fun covering =>
      { s with
        boundsCheck := Function.update s.boundsCheck dominating covering
        eliminated := s.eliminated ++ [(dominating, checkB)] })

-- The uses of a check are left out: no index is computed from the result of one.
def TryEliminateBoundsCheck (address : MDefinition → Nat) (s : RedundantChecks)
    (visit : BoundsCheckVisit) : Option RedundantChecks :=
  if ¬ (s.boundsCheck visit.check).isMovable then some s
  else if ¬ (s.boundsCheck visit.check).fallible then some s
  else do
    let (s, dominating) ← FindDominatingBoundsCheck address s visit
    mergeChecks s dominating visit.check

def eliminateBoundsChecks (address : MDefinition → Nat) (s : RedundantChecks)
    (visits : List BoundsCheckVisit) : Option RedundantChecks :=
  visits.foldlM (TryEliminateBoundsCheck address) s

end RedundantChecks

end SpiderMonkey
