import Mathlib.Data.Int.NatAbs

/-!
This module contains the conversions from doubles to integers, on the bits of the doubles. There is no result when a
shift count is not inside the width of its operand.
-/

namespace SpiderMonkey

namespace FloatingPoint

def kExponentWidth : Nat := 11
def kSignificandWidth : Nat := 52
def kExponentBias : Nat := 2 ^ (kExponentWidth - 1) - 1
def kExponentShift : Nat := kSignificandWidth
def kSignBit : BitVec 64 := 1 <<< (64 - 1)
def kExponentBits : BitVec 64 := ((1 <<< kExponentWidth) - 1) <<< kSignificandWidth

end FloatingPoint

namespace Conversions

open FloatingPoint

variable {n : Nat}

def shiftLeft (x : BitVec n) (count : Nat) : Option (BitVec n) := if count < n then some (x <<< count) else none
def shiftRight (x : BitVec n) (count : Nat) : Option (BitVec n) := if count < n then some (x >>> count) else none

def promotedWidth (width : Nat) : Nat := max width 32

def ToUnsignedInteger (ResultWidth : Nat) (bits : BitVec 64) : Option (BitVec ResultWidth) := do
  let DoubleExponentShift := kExponentShift
  let exp : Int := ((bits &&& kExponentBits) >>> DoubleExponentShift).toNat - kExponentBias
  if exp < 0 then return 0
  else
    let exponent := exp.toNat
    if exponent ≥ DoubleExponentShift + ResultWidth then return 0
    else
      let shifted ← (if exponent > DoubleExponentShift then shiftLeft bits (exponent - DoubleExponentShift)
        else shiftRight bits (DoubleExponentShift - exponent))
      let result := shifted.setWidth ResultWidth
      let result ← (if exponent < ResultWidth then do
          let one : BitVec (promotedWidth ResultWidth) := 1
          let implicitOne := (← shiftLeft one exponent).setWidth ResultWidth
          some ((result &&& (implicitOne - 1)) + implicitOne)
        else some result)
      return if bits &&& kSignBit ≠ 0 then ~~~result + 1 else result

def MaxValue (width : Nat) : Int := 2 ^ (width - 1) - 1
def MinValue (width : Nat) : Int := -MaxValue width - 1

def WrapToSigned (aValue : BitVec n) : Int :=
  if aValue ≤ BitVec.ofInt n (MaxValue n) then aValue.toInt
  else (aValue - BitVec.ofInt n (MinValue n)).toInt + MinValue n

def ToSignedInteger (width : Nat) (bits : BitVec 64) : Option Int := do
  return WrapToSigned (← ToUnsignedInteger width bits)

def ToInt32 (bits : BitVec 64) : Option Int := ToSignedInteger 32 bits
def ToUint32 (bits : BitVec 64) : Option (BitVec 32) := ToUnsignedInteger 32 bits

end Conversions
end SpiderMonkey
