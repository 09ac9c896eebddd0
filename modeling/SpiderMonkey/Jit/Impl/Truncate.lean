import SpiderMonkey.Jit.Impl.LinearSum
import SpiderMonkey.Lib.IntegralDouble

/-!
This module contains the truncation of integer arithmetic that range analysis allows, with the ranges of numeric
definitions and those of sums, differences and products.
-/

namespace SpiderMonkey

def JSVAL_INT_MIN : Int := -2 ^ 31
def JSVAL_INT_MAX : Int := 2 ^ 31 - 1

structure Range where
  lower : Int
  upper : Int
  hasInt32LowerBound : Bool
  hasInt32UpperBound : Bool
  canHaveFractionalPart : Bool
  canBeNegativeZero : Bool
  maxExponent : Nat
deriving DecidableEq, Repr

namespace Range

def MaxInt32Exponent : Nat := 31
def MaxTruncatableExponent : Nat := 52
def MaxFiniteExponent : Nat := 1023
def IncludesInfinity : Nat := MaxFiniteExponent + 1
def IncludesInfinityAndNaN : Nat := 2 ^ 16 - 1
def NoInt32UpperBound : Int := JSVAL_INT_MAX + 1
def NoInt32LowerBound : Int := JSVAL_INT_MIN - 1

def hasInt32Bounds (r : Range) : Bool := r.hasInt32LowerBound && r.hasInt32UpperBound

def isInt32 (r : Range) : Bool :=
  r.hasInt32Bounds && !r.canHaveFractionalPart && !r.canBeNegativeZero

def canHaveRoundingErrors (r : Range) : Bool :=
  r.canHaveFractionalPart || r.canBeNegativeZero || MaxTruncatableExponent ≤ r.maxExponent

def canBeZero (r : Range) : Bool := r.lower ≤ 0 && 0 ≤ r.upper
def canBeNaN (r : Range) : Bool := r.maxExponent = IncludesInfinityAndNaN
def canBeInfiniteOrNaN (r : Range) : Bool := IncludesInfinity ≤ r.maxExponent
def canBeFiniteNegative (r : Range) : Bool := r.lower < 0
def canBeFiniteNonNegative (r : Range) : Bool := 0 ≤ r.upper
def numBits (r : Range) : Nat := r.maxExponent + 1

def canHaveSignBitSet (r : Range) : Bool :=
  !r.hasInt32LowerBound || r.canBeFiniteNegative || r.canBeNegativeZero

def exponentImpliedByInt32Bounds (r : Range) : Nat :=
  (max r.lower.natAbs r.upper.natAbs).log2

def setLowerInit (r : Range) (x : Int) : Range :=
  if x > JSVAL_INT_MAX then { r with lower := JSVAL_INT_MAX, hasInt32LowerBound := true }
  else if x < JSVAL_INT_MIN then { r with lower := JSVAL_INT_MIN, hasInt32LowerBound := false }
  else { r with lower := x, hasInt32LowerBound := true }

def setUpperInit (r : Range) (x : Int) : Range :=
  if x > JSVAL_INT_MAX then { r with upper := JSVAL_INT_MAX, hasInt32UpperBound := false }
  else if x < JSVAL_INT_MIN then { r with upper := JSVAL_INT_MIN, hasInt32UpperBound := true }
  else { r with upper := x, hasInt32UpperBound := true }

def optimizeBounds (r : Range) : Range :=
  if r.hasInt32Bounds then
    { r with
      maxExponent := min r.exponentImpliedByInt32Bounds r.maxExponent
      canHaveFractionalPart := r.canHaveFractionalPart && r.lower ≠ r.upper }
  else r

def optimize (r : Range) : Range :=
  let r := r.optimizeBounds
  if r.canBeNegativeZero && !r.canBeZero then { r with canBeNegativeZero := false } else r

def set (l h : Int) (canHaveFractionalPart canBeNegativeZero : Bool) (e : Nat) : Range :=
  let r : Range := ⟨0, 0, true, true, canHaveFractionalPart, canBeNegativeZero, e⟩
  ((r.setLowerInit l).setUpperInit h).optimize

def setInt32 (l h : Int) : Range :=
  let r : Range := ⟨l, h, true, true, false, false, 0⟩
  { r with maxExponent := r.exponentImpliedByInt32Bounds }

def refineInt32BoundsByExponent (r : Range) : Range :=
  if r.maxExponent < MaxInt32Exponent then
    { r with
      upper := min r.upper (2 ^ (r.maxExponent + 1) - 1)
      lower := max r.lower (-(2 ^ (r.maxExponent + 1) - 1))
      hasInt32UpperBound := true
      hasInt32LowerBound := true }
  else r

def wrapAroundToInt32 (r : Range) : Range :=
  if !r.hasInt32Bounds then setInt32 JSVAL_INT_MIN JSVAL_INT_MAX
  else if r.canHaveFractionalPart then
    { r with canHaveFractionalPart := false, canBeNegativeZero := false }.refineInt32BoundsByExponent
  else { r with canBeNegativeZero := false }

def addExponent (lhs rhs : Range) : Nat :=
  if lhs.canBeInfiniteOrNaN && rhs.canBeInfiniteOrNaN then IncludesInfinityAndNaN
  else
    let e := max lhs.maxExponent rhs.maxExponent
    if e ≤ MaxFiniteExponent then e + 1 else e

def add (lhs rhs : Range) : Range :=
  let l := if !lhs.hasInt32LowerBound || !rhs.hasInt32LowerBound then NoInt32LowerBound
    else lhs.lower + rhs.lower
  let h := if !lhs.hasInt32UpperBound || !rhs.hasInt32UpperBound then NoInt32UpperBound
    else lhs.upper + rhs.upper
  set l h (lhs.canHaveFractionalPart || rhs.canHaveFractionalPart)
    (lhs.canBeNegativeZero && rhs.canBeNegativeZero) (addExponent lhs rhs)

def sub (lhs rhs : Range) : Range :=
  let l := if !lhs.hasInt32LowerBound || !rhs.hasInt32UpperBound then NoInt32LowerBound
    else lhs.lower - rhs.upper
  let h := if !lhs.hasInt32UpperBound || !rhs.hasInt32LowerBound then NoInt32UpperBound
    else lhs.upper - rhs.lower
  set l h (lhs.canHaveFractionalPart || rhs.canHaveFractionalPart)
    (lhs.canBeNegativeZero && rhs.canBeZero) (addExponent lhs rhs)

def mulExponent (lhs rhs : Range) : Nat :=
  if !lhs.canBeInfiniteOrNaN && !rhs.canBeInfiniteOrNaN then
    let exponent := lhs.numBits + rhs.numBits - 1
    if exponent > MaxFiniteExponent then IncludesInfinity else exponent
  else if !lhs.canBeNaN && !rhs.canBeNaN && !(lhs.canBeZero && rhs.canBeInfiniteOrNaN)
      && !(rhs.canBeZero && lhs.canBeInfiniteOrNaN) then
    IncludesInfinity
  else IncludesInfinityAndNaN

def mul (lhs rhs : Range) : Range :=
  let newCanHaveFractionalPart := lhs.canHaveFractionalPart || rhs.canHaveFractionalPart
  let newMayIncludeNegativeZero :=
    (lhs.canHaveSignBitSet && rhs.canBeFiniteNonNegative)
      || (rhs.canHaveSignBitSet && lhs.canBeFiniteNonNegative)
  if !lhs.hasInt32Bounds || !rhs.hasInt32Bounds then
    set NoInt32LowerBound NoInt32UpperBound newCanHaveFractionalPart newMayIncludeNegativeZero
      (mulExponent lhs rhs)
  else
    let a := lhs.lower * rhs.lower
    let b := lhs.lower * rhs.upper
    let c := lhs.upper * rhs.lower
    let d := lhs.upper * rhs.upper
    set (min (min a b) (min c d)) (max (max a b) (max c d)) newCanHaveFractionalPart
      newMayIncludeNegativeZero (mulExponent lhs rhs)

-- `Range(const MDefinition*)` for a definition of type `Int32` that is no `MToNumberInt32`.
def ofInt32Definition (range : Option Range) : Range :=
  match range with
  | some other => other.wrapAroundToInt32
  | none => setInt32 JSVAL_INT_MIN JSVAL_INT_MAX

end Range

inductive ArithOp where
  | add
  | sub
  | mul
deriving DecidableEq, Repr

structure CandidateUses where
  isCapturedResult : Bool
  isObservableResult : Bool
  isRecoverableResult : Bool
  hasUseRemoved : Bool
  isGuard : Bool
  canRecoverOnBailout : Bool
deriving DecidableEq, Repr

-- A definition of type `Int32`. Operands are the indexes of earlier definitions, and `leaf` is every
-- definition that is no arithmetic.
inductive ArithNode where
  | leaf (range : Option Range)
  | arith (op : ArithOp) (lhs rhs : Nat) (uses : CandidateUses)
deriving DecidableEq, Repr

structure TruncateOptions where
  disableRecoverIns : Bool
  hadOverflowBailout : Bool
deriving DecidableEq, Repr

namespace ArithOp

def computeRange : ArithOp → Range → Range → Range
  | add => Range.add
  | sub => Range.sub
  | mul => Range.mul

def int : ArithOp → Int → Int → Int
  | add => (· + ·)
  | sub => (· - ·)
  | mul => (· * ·)

def wrapping : ArithOp → Int32 → Int32 → Int32
  | add => (· + ·)
  | sub => (· - ·)
  | mul => (· * ·)

def safe : ArithOp → Int32 → Int32 → Option Int32
  | add => SafeAdd
  | sub => SafeSub
  | mul => SafeMul

def double : ArithOp → IntegralDouble → IntegralDouble → IntegralDouble
  | add => IntegralDouble.add
  | sub => IntegralDouble.sub
  | mul => IntegralDouble.mul

end ArithOp

namespace TruncateKind

def rank : TruncateKind → Nat
  | noTruncate => 0
  | truncateAfterBailouts => 1
  | indirectTruncate => 2
  | truncate => 3

def min (a b : TruncateKind) : TruncateKind := if a.rank ≤ b.rank then a else b

end TruncateKind

abbrev ArithGraph := List ArithNode

namespace ArithGraph

def evalWith {β : Type} (f : List β → Nat → ArithNode → Option β) :
    List β → ArithGraph → Option (List β)
  | done, [] => some done
  | done, node :: rest => do
    let value ← f done done.length node
    evalWith f (done ++ [value]) rest

def computeRange (ranges : List (Option Range)) (_ : Nat) : ArithNode → Option (Option Range)
  | .leaf range => some range
  | .arith op lhs rhs _ => do
    let left ← ranges[lhs]?
    let right ← ranges[rhs]?
    some (some (op.computeRange (.ofInt32Definition left) (.ofInt32Definition right)))

def ranges (graph : ArithGraph) : Option (List (Option Range)) := evalWith computeRange [] graph

def operandTruncateKind (truncateKind : TruncateKind) : TruncateKind :=
  truncateKind.min .indirectTruncate

-- The consumers among the arithmetic that comes later; `kinds` are the kinds of these definitions.
-- All other consumers are truncating, so that they ask for the kind `Truncate`.
def consumersKind (i : Nat) : List ArithNode → List TruncateKind → TruncateKind
  | .arith _ lhs rhs _ :: later, kind :: kinds =>
    if lhs = i ∨ rhs = i then
      (operandTruncateKind kind).min (consumersKind i later kinds)
    else consumersKind i later kinds
  | .leaf _ :: later, _ :: kinds => consumersKind i later kinds
  | _, _ => .truncate

def ComputeRequestedTruncateKind (options : TruncateOptions) (range : Option Range)
    (uses : CandidateUses) (consumers : TruncateKind) : TruncateKind :=
  let kind := if uses.isGuard then consumers.min .truncateAfterBailouts else consumers
  let needsConversion := match range with
    | some range => !range.isInt32
    | none => true
  let safeToConvert := kind = .truncate && !uses.hasUseRemoved && !uses.isObservableResult
  if uses.isCapturedResult && needsConversion && !safeToConvert then
    if !options.disableRecoverIns && uses.isRecoverableResult && uses.canRecoverOnBailout then kind
    else kind.min .truncateAfterBailouts
  else kind

def ComputeTruncateKind (options : TruncateOptions) (range : Option Range) (uses : CandidateUses)
    (consumers : TruncateKind) : TruncateKind :=
  let canHaveRoundingErrors := match range with
    | some range => range.canHaveRoundingErrors
    | none => true
  if canHaveRoundingErrors then .noTruncate
  else ComputeRequestedTruncateKind options range uses consumers

def truncateNode (options : TruncateOptions) (range : Option Range) (node : ArithNode)
    (consumers : TruncateKind) : TruncateKind :=
  match node with
  | .leaf _ => .noTruncate
  | .arith _ _ _ uses =>
    let kind := ComputeTruncateKind options range uses consumers
    if kind.rank ≤ TruncateKind.truncateAfterBailouts.rank && options.hadOverflowBailout then
      .noTruncate
    else kind

-- `RangeAnalysis::truncate` goes backward; `i` is the index of the first definition of the list.
def truncateFrom (options : TruncateOptions) :
    Nat → List ArithNode → List (Option Range) → List TruncateKind
  | _, [], _ => []
  | i, node :: later, ranges =>
    let kinds := truncateFrom options (i + 1) later ranges.tail
    truncateNode options ranges.head?.join node (consumersKind i later kinds) :: kinds

def truncateKinds (options : TruncateOptions) (graph : ArithGraph) : Option (List TruncateKind) :=
  (ranges graph).map (truncateFrom options 0 graph)

-- What the compiled definition computes, and `none` where it bails out.
def truncatedValue (kinds : List TruncateKind) (leaves : Nat → Int32) (values : List Int32)
    (i : Nat) : ArithNode → Option Int32
  | .leaf _ => some (leaves i)
  | .arith op lhs rhs _ => do
    let left ← values[lhs]?
    let right ← values[rhs]?
    match kinds[i]? with
    | some .indirectTruncate => some (op.wrapping left right)
    | some .truncate => some (op.wrapping left right)
    | _ => op.safe left right

def truncatedValues (options : TruncateOptions) (graph : ArithGraph) (leaves : Nat → Int32)
    (n : Nat) : Option (List Int32) := do
  let kinds ← truncateKinds options graph
  evalWith (truncatedValue kinds leaves) [] (graph.take n)

def doubleValue (leaves : Nat → Int32) (values : List IntegralDouble) (i : Nat) :
    ArithNode → Option IntegralDouble
  | .leaf _ => some (.finite (leaves i).toInt)
  | .arith op lhs rhs _ => do
    let left ← values[lhs]?
    let right ← values[rhs]?
    some (op.double left right)

def doubleValues (graph : ArithGraph) (leaves : Nat → Int32) : Option (List IntegralDouble) :=
  evalWith (doubleValue leaves) [] graph

def exactValue (leaves : Nat → Int32) (values : List Int) (i : Nat) : ArithNode → Option Int
  | .leaf _ => some (leaves i).toInt
  | .arith op lhs rhs _ => do
    let left ← values[lhs]?
    let right ← values[rhs]?
    some (op.int left right)

def exactValues (graph : ArithGraph) (leaves : Nat → Int32) : Option (List Int) :=
  evalWith (exactValue leaves) [] graph

end ArithGraph

end SpiderMonkey
