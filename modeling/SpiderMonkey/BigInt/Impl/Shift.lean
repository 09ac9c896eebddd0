import SpiderMonkey.BigInt.Impl.Digit

/-!
This module contains the shift operators `lsh` and `rsh`.
-/

namespace SpiderMonkey.BigInt

variable {p : Platform}

def addOneDigits (x : BigInt p) (result : BigInt p) (n : Nat) : BigInt p × Digit p :=
  n.fold
    (fun i _ (result, carry) =>
      let (sum, newCarry) := digitAdd (x.digit i) carry 0
      (result.setDigit i sum, newCarry))
    (result, 1)

def absoluteAddOne (x : BigInt p) (resultNegative : Bool) : JSM p (BigInt p) := do
  let inputLength := x.digitLength
  let willOverflow := (List.range inputLength).all (fun i => x.digit i == digitMax p)
  let resultLength := inputLength + willOverflow.toNat
  let result ← createUninitialized resultLength resultNegative
  let (result, _) := addOneDigits x result inputLength
  if resultLength > inputLength then
    destructivelyTrimHighZeroDigits (result.setDigit inputLength 1)
  else
    destructivelyTrimHighZeroDigits result

def shiftLeftDigits (x : BigInt p) (shift : Nat) (result : BigInt p) (dst n : Nat)
    : BigInt p × Digit p :=
  n.fold
    (fun i _ (result, carry) =>
      let d := x.digit i
      (result.setDigit (dst + i) ((d <<< shift) ||| carry), d >>> (digitBits p - shift)))
    (result, 0)

def lshByAbsolute (x y : BigInt p) : JSM p (BigInt p) :=
  if x.isZero || y.isZero then
    return x
  else if y.digitLength > 1 || (y.digit 0).toNat > maxBitLength then
    throw .bigintTooLarge
  else do
    let shift := (y.digit 0).toNat
    let digitShift := shift / digitBits p
    let bitsShift := shift % digitBits p
    let length := x.digitLength
    let grow := bitsShift != 0 && x.digit (length - 1) >>> (digitBits p - bitsShift) != 0
    let resultLength := length + digitShift + grow.toNat
    let result ← createUninitialized resultLength x.isNegative
    let result := digitShift.fold (fun i _ result => result.setDigit i 0) result
    if bitsShift = 0 then
      return copyDigits x 0 result digitShift (resultLength - digitShift)
    else
      let (result, carry) := shiftLeftDigits x bitsShift result digitShift length
      if grow then
        return result.setDigit (digitShift + length) carry
      else
        return result

def rshByMaximum (isNegative : Bool) : JSM p (BigInt p) :=
  if isNegative then negativeOne else zero

def shiftRightDigits (x : BigInt p) (src shift : Nat) (result : BigInt p) (last : Nat)
    : BigInt p × Digit p :=
  last.fold
    (fun i _ (result, carry) =>
      let d := x.digit (i + src + 1)
      (result.setDigit i ((d <<< (digitBits p - shift)) ||| carry), d >>> shift))
    (result, x.digit src >>> shift)

def mustRoundDown (x : BigInt p) (digitShift bitsShift : Nat) : Bool :=
  let mask := ((1 : Digit p) <<< bitsShift) - 1
  x.isNegative &&
    (x.digit digitShift &&& mask != 0 || (List.range digitShift).any (fun i => x.digit i != 0))

def rshDigits (x : BigInt p) (digitShift bitsShift : Nat) (result : BigInt p) : BigInt p :=
  let length := x.digitLength
  if bitsShift = 0 then
    copyDigits x digitShift result 0 (length - digitShift)
  else
    let last := length - digitShift - 1
    let (result, carry) := shiftRightDigits x digitShift bitsShift result last
    result.setDigit last carry

def rshByAbsolute (x y : BigInt p) : JSM p (BigInt p) :=
  if x.isZero || y.isZero then
    return x
  else if y.digitLength > 1 || (y.digit 0).toNat ≥ maxBitLength then
    rshByMaximum x.isNegative
  else
    let shift := (y.digit 0).toNat
    let length := x.digitLength
    let digitShift := shift / digitBits p
    let bitsShift := shift % digitBits p
    if length ≤ digitShift then
      rshByMaximum x.isNegative
    else do
      let mustRoundDown := mustRoundDown x digitShift bitsShift
      let msd := x.digit (length - 1)
      let roundingCanOverflow := mustRoundDown && bitsShift == 0 && msd == digitMax p
      let resultLength := length - digitShift + roundingCanOverflow.toNat
      let result ← createUninitialized resultLength x.isNegative
      let result := rshDigits x digitShift bitsShift result
      if mustRoundDown then
        absoluteAddOne result x.isNegative
      else
        destructivelyTrimHighZeroDigits result

def lsh (x y : BigInt p) : JSM p (BigInt p) :=
  if y.isNegative then rshByAbsolute x y else lshByAbsolute x y

def rsh (x y : BigInt p) : JSM p (BigInt p) :=
  if y.isNegative then lshByAbsolute x y else rshByAbsolute x y

end SpiderMonkey.BigInt
