import SpiderMonkey.BigInt.Impl.Digit
import SpiderMonkey.Numbers.Impl.Conversions

/-!
This module contains the comparison of `BigInt` values with doubles, on the bits of the doubles.
-/

namespace SpiderMonkey

namespace FloatingPoint

def kSignificandBits : BitVec 64 := (1 <<< kSignificandWidth) - 1

def IsFinite (aValue : BitVec 64) : Bool := aValue &&& kExponentBits ≠ kExponentBits

def ExponentComponent (aValue : BitVec 64) : Int := ((aValue &&& kExponentBits) >>> kExponentShift).toNat - kExponentBias

-- `y == 0`, `y < 0` and `y > 0` for a double that is not a NaN.
def eqZero (y : BitVec 64) : Bool := y = 0 ∨ y = kSignBit
def ltZero (y : BitVec 64) : Bool := y &&& kSignBit ≠ 0 ∧ ¬eqZero y
def gtZero (y : BitVec 64) : Bool := y &&& kSignBit = 0 ∧ ¬eqZero y

end FloatingPoint

namespace BigInt

open FloatingPoint

variable {p : Platform}

-- The high 64 bits of `x`, whether the digit with the last of them has bits left over, and the number of digits below.
def high64Bits (x : BigInt p) : BitVec 64 × Bool × Nat :=
  let xLength := x.digitLength
  let xMSD := x.digit (xLength - 1)
  let shift := digitLeadingZeroes xMSD
  let xBitLength := xLength * digitBits p - shift
  let xBitsFilled := digitBits p - shift
  let xHigh64Bits := xMSD.setWidth 64 <<< (64 - xBitsFilled)
  let xLength := xLength - 1
  if xBitsFilled < min xBitLength 64 then
    let xLength := xLength - 1
    let second := x.digit xLength
    if digitBits p = 32 then
      let xBitsFilled := xBitsFilled + 32
      let xHigh64Bits := xHigh64Bits ||| second.setWidth 64 <<< (64 - xBitsFilled)
      if xBitsFilled < 64 ∧ xLength ≥ 1 then
        let xLength := xLength - 1
        let third := x.digit xLength
        let neededBits := 64 - xBitsFilled
        (xHigh64Bits ||| third.setWidth 64 >>> (digitBits p - neededBits), third <<< neededBits ≠ 0, xLength)
      else
        (xHigh64Bits, false, xLength)
    else
      let neededBits := 64 - xBitsFilled
      (xHigh64Bits ||| second.setWidth 64 >>> (digitBits p - neededBits), second <<< neededBits ≠ 0, xLength)
  else
    (xHigh64Bits, false, xLength)

-- The last loop of `compare`.
def anyNonZeroDigit (x : BigInt p) : Nat → Bool
  | 0 => false
  | xLength + 1 => x.digit xLength ≠ 0 || anyNonZeroDigit x xLength

def compare (x : BigInt p) (y : BitVec 64) : Int :=
  if !IsFinite y then
    if gtZero y then -1 else 1
  else if x.isZero then
    if eqZero y then 0 else if gtZero y then -1 else 1
  else
    let xNegative := x.isNegative
    if eqZero y then
      if xNegative then -1 else 1
    else if xNegative ≠ ltZero y then
      if xNegative then -1 else 1
    else
      let exponent := ExponentComponent y
      if exponent < 0 then
        if xNegative then -1 else 1
      else
        let xBitLength : Int :=
          (x.digitLength * digitBits p - digitLeadingZeroes (x.digit (x.digitLength - 1)) : Nat)
        let yBitLength := exponent + 1
        if xBitLength < yBitLength then
          if xNegative then 1 else -1
        else if xBitLength > yBitLength then
          if xNegative then -1 else 1
        else
          let significandBits := y &&& kSignificandBits
          let yHigh64Bits := ((1 : BitVec 64) <<< kSignificandWidth ||| significandBits) <<< (64 - kSignificandWidth - 1)
          let (xHigh64Bits, xHasNonZeroLeftoverBits, xLength) := high64Bits x
          if yHigh64Bits > xHigh64Bits then
            if xNegative then 1 else -1
          else if xHigh64Bits > yHigh64Bits then
            if xNegative then -1 else 1
          else if xHasNonZeroLeftoverBits then
            if xNegative then -1 else 1
          else if anyNonZeroDigit x xLength then
            if xNegative then -1 else 1
          else
            0

end BigInt
end SpiderMonkey
