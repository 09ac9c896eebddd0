import SpiderMonkey.Jit.Impl.Truncate

/-!
This module contains the ranges of the bitwise operations and of the shifts. The assertions of these functions are
guards, except the one about the fields of a range, and counting the leading zeroes of zero has no result.
-/

namespace SpiderMonkey.Range

structure assertInvariants (r : Range) : Prop where
  int32Lower : JSVAL_INT_MIN ≤ r.lower
  int32Upper : r.upper ≤ JSVAL_INT_MAX
  lower_le_upper : r.lower ≤ r.upper
  lower_of_unbounded : !r.hasInt32LowerBound → r.lower = JSVAL_INT_MIN
  upper_of_unbounded : !r.hasInt32UpperBound → r.upper = JSVAL_INT_MAX
  exponent : r.maxExponent ≤ MaxFiniteExponent ∨ r.maxExponent = IncludesInfinity
    ∨ r.maxExponent = IncludesInfinityAndNaN
  unbounded : !r.hasInt32LowerBound ∨ !r.hasInt32UpperBound →
    MaxInt32Exponent ≤ r.maxExponent + r.canHaveFractionalPart.toNat
  upperExponent : r.upper.natAbs.log2 ≤ r.maxExponent + r.canHaveFractionalPart.toNat
  lowerExponent : r.lower.natAbs.log2 ≤ r.maxExponent + r.canHaveFractionalPart.toNat

structure Contains (r : Range) (v : Int) : Prop where
  lower_le : r.hasInt32LowerBound → r.lower ≤ v
  le_upper : r.hasInt32UpperBound → v ≤ r.upper
  lt_exponent : r.maxExponent ≤ MaxFiniteExponent → v.natAbs < 2 ^ (r.maxExponent + 1)

def MaxUInt32Exponent : Nat := 31

def NewInt32Range (l h : Int) : Range := set l h false false MaxInt32Exponent
def NewUInt32Range (l h : Int) : Range := set l h false false MaxUInt32Exponent

def isFiniteNegative (r : Range) : Bool := r.upper < 0 && !r.canBeInfiniteOrNaN
def isFiniteNonNegative (r : Range) : Bool := 0 ≤ r.lower && !r.canBeInfiniteOrNaN

def uint32 (x : Int) : BitVec 32 := BitVec.ofInt 32 x

def UINT32_MAX : BitVec 32 := BitVec.allOnes 32

def CountLeadingZeroes32 (x : BitVec 32) : Option Nat := if x = 0#32 then none else some (31 - x.toNat.log2)

def and_ (lhs rhs : Range) : Option Range := do
  guard (lhs.isInt32 ∧ rhs.isInt32)
  if lhs.lower < 0 ∧ rhs.lower < 0 then return NewInt32Range JSVAL_INT_MIN (max lhs.upper rhs.upper)
  let upper := min lhs.upper rhs.upper
  let upper := if lhs.lower < 0 then rhs.upper else upper
  let upper := if rhs.lower < 0 then lhs.upper else upper
  return NewInt32Range 0 upper

def orLeadingOnes (operand : Range) (bounds : Int × Int) : Option (Int × Int) :=
  if operand.upper < 0 then do
    let leadingOnes ← CountLeadingZeroes32 (~~~uint32 operand.lower)
    return (max bounds.1 (~~~(UINT32_MAX >>> leadingOnes)).toInt, -1)
  else some bounds

def orBounds (lhs rhs : Range) : Option (Int × Int) :=
  if lhs.lower ≥ 0 ∧ rhs.lower ≥ 0 then do
    let leadingZeroes := min (← CountLeadingZeroes32 (uint32 lhs.upper)) (← CountLeadingZeroes32 (uint32 rhs.upper))
    return (max lhs.lower rhs.lower, (UINT32_MAX >>> leadingZeroes).toInt)
  else do orLeadingOnes rhs (← orLeadingOnes lhs (JSVAL_INT_MIN, JSVAL_INT_MAX))

def or_ (lhs rhs : Range) : Option Range := do
  guard (lhs.isInt32 ∧ rhs.isInt32)
  if lhs.lower = lhs.upper ∧ lhs.lower = 0 then return rhs
  if lhs.lower = lhs.upper ∧ lhs.lower = -1 then return lhs
  if rhs.lower = rhs.upper ∧ rhs.lower = 0 then return lhs
  if rhs.lower = rhs.upper ∧ rhs.lower = -1 then return rhs
  guard (lhs.lower ≥ 0 → lhs.upper ≠ 0)
  guard (rhs.lower ≥ 0 → rhs.upper ≠ 0)
  guard (lhs.upper < 0 → lhs.lower ≠ -1)
  guard (rhs.upper < 0 → rhs.lower ≠ -1)
  let (lower, upper) ← orBounds lhs rhs
  return NewInt32Range lower upper

def invert (bounds : Int × Int) : Int × Int := (~~~bounds.2, ~~~bounds.1)

def xorBounds (lhs rhs : Int × Int) : Option (Int × Int) :=
  if lhs.1 = 0 ∧ lhs.2 = 0 then some rhs
  else if rhs.1 = 0 ∧ rhs.2 = 0 then some lhs
  else if lhs.1 ≥ 0 ∧ rhs.1 ≥ 0 then do
    let lhsLeadingZeros ← CountLeadingZeroes32 (uint32 lhs.2)
    let rhsLeadingZeros ← CountLeadingZeroes32 (uint32 rhs.2)
    return (0, min (uint32 rhs.2 ||| UINT32_MAX >>> lhsLeadingZeros).toInt
      (uint32 lhs.2 ||| UINT32_MAX >>> rhsLeadingZeros).toInt)
  else some (JSVAL_INT_MIN, JSVAL_INT_MAX)

def xor_ (lhs rhs : Range) : Option Range := do
  guard (lhs.isInt32 ∧ rhs.isInt32)
  let lhsBounds := if lhs.upper < 0 then invert (lhs.lower, lhs.upper) else (lhs.lower, lhs.upper)
  let rhsBounds := if rhs.upper < 0 then invert (rhs.lower, rhs.upper) else (rhs.lower, rhs.upper)
  let invertAfter := decide (lhs.upper < 0) ^^ decide (rhs.upper < 0)
  let bounds ← xorBounds lhsBounds rhsBounds
  let bounds := if invertAfter then invert bounds else bounds
  return NewInt32Range bounds.1 bounds.2

def not_ (op : Range) : Option Range := do
  guard op.isInt32
  return NewInt32Range (~~~op.upper) (~~~op.lower)

def lshBy (lhs : Range) (c : BitVec 32) : Option Range := do
  guard lhs.isInt32
  let shift := (c &&& 0x1f#32).toNat
  if (uint32 lhs.lower <<< shift <<< 1 >>> shift >>> 1).toInt = lhs.lower
      ∧ (uint32 lhs.upper <<< shift <<< 1 >>> shift >>> 1).toInt = lhs.upper then
    return NewInt32Range (uint32 lhs.lower <<< shift).toInt (uint32 lhs.upper <<< shift).toInt
  return NewInt32Range JSVAL_INT_MIN JSVAL_INT_MAX

def rshBy (lhs : Range) (c : BitVec 32) : Option Range := do
  guard lhs.isInt32
  let shift := (c &&& 0x1f#32).toNat
  return NewInt32Range (lhs.lower >>> shift) (lhs.upper >>> shift)

def urshBy (lhs : Range) (c : BitVec 32) : Option Range := do
  guard lhs.isInt32
  let shift := (c &&& 0x1f#32).toNat
  if lhs.isFiniteNonNegative ∨ lhs.isFiniteNegative then
    return NewUInt32Range (uint32 lhs.lower >>> shift).toNat (uint32 lhs.upper >>> shift).toNat
  return NewUInt32Range 0 (UINT32_MAX >>> shift).toNat

def lsh (lhs rhs : Range) : Option Range := do
  guard (lhs.isInt32 ∧ rhs.isInt32)
  return NewInt32Range JSVAL_INT_MIN JSVAL_INT_MAX

def shiftBounds (rhs : Range) : Nat × Nat :=
  if rhs.upper - rhs.lower ≥ 31 then (0, 31)
  else
    let shiftLower := (uint32 rhs.lower &&& 0x1f#32).toNat
    let shiftUpper := (uint32 rhs.upper &&& 0x1f#32).toNat
    if shiftLower > shiftUpper then (0, 31) else (shiftLower, shiftUpper)

def rsh (lhs rhs : Range) : Option Range := do
  guard (lhs.isInt32 ∧ rhs.isInt32)
  let (shiftLower, shiftUpper) := shiftBounds rhs
  guard (shiftUpper ≤ 31)
  let min := if lhs.lower < 0 then lhs.lower >>> shiftLower else lhs.lower >>> shiftUpper
  let max := if lhs.upper ≥ 0 then lhs.upper >>> shiftLower else lhs.upper >>> shiftUpper
  return NewInt32Range min max

def ursh (lhs rhs : Range) : Option Range := do
  guard (lhs.isInt32 ∧ rhs.isInt32)
  return NewUInt32Range 0 (if lhs.isFiniteNonNegative then lhs.upper else UINT32_MAX.toNat)

end SpiderMonkey.Range
