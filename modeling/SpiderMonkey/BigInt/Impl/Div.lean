import SpiderMonkey.BigInt.Impl.Shift

/-!
This module contains `div`, `mod` and the long division they are based on.
-/

namespace SpiderMonkey.BigInt

variable {p : Platform}

def compareDigits (x y : BigInt p) (n : Nat) : Int :=
  match n with
  | 0 => 0
  | i + 1 =>
    if x.digit i = y.digit i then
      compareDigits x y i
    else if x.digit i > y.digit i then
      1
    else
      -1

def absoluteCompare (x y : BigInt p) : Int :=
  let diff : Int := x.digitLength - y.digitLength
  if diff ≠ 0 then
    if diff < 0 then -1 else 1
  else
    compareDigits x y x.digitLength

-- The quotient is `none` where the caller passes `Nothing()` for it, and otherwise what the handle
-- refers to, `some none` for an empty handle.
def absoluteDivWithDigitDivisor (x : BigInt p) (divisor : Digit p)
    (quotient : Option (Option (BigInt p))) (quotientNegative : Bool)
    : JSM p (Option (BigInt p) × Digit p) :=
  if divisor = 1 then
    match quotient with
    | some _ =>
      if x.isNegative = quotientNegative then
        return (some x, 0)
      else do
        let q ← neg x
        return (some q, 0)
    | none =>
      return (none, 0)
  else
    let length := x.digitLength
    match quotient with
    | some quotient => do
      let q ←
        match quotient with
        | none => createUninitialized length quotientNegative
        | some q => pure q
      let (q, remainder) := length.foldRev
        (fun i _ (q, remainder) =>
          let (digit, remainder) := digitDiv remainder (x.digit i) divisor
          (q.setDigit i digit, remainder))
        (q, 0)
      return (some q, remainder)
    | none =>
      return (none, length.foldRev (fun i _ remainder => (digitDiv remainder (x.digit i) divisor).2) 0)

-- Writes the `n` low digits of `source * factor + summand` and returns what is carried out of them.
def multiplyAddDigits (source : BigInt p) (factor summand : Digit p) (n : Nat) (result : BigInt p)
    : BigInt p × Digit p × Digit p :=
  n.fold
    (fun i _ (result, carry, high) =>
      let (current, newHigh) := digitMul (source.digit i) factor
      let (current, newCarry) := digitAdd current high 0
      let (current, newCarry) := digitAdd current carry newCarry
      (result.setDigit i current, newCarry, newHigh))
    (result, summand, 0)

def internalMultiplyAdd (source : BigInt p) (factor summand : Digit p) (n : Nat)
    (result : BigInt p) : BigInt p :=
  let (result, carry, high) := multiplyAddDigits source factor summand n result
  if result.digitLength > n then
    let result := result.setDigit n (carry + high)
    (result.digitLength - (n + 1)).fold (fun i _ result => result.setDigit (n + 1 + i) 0) result
  else
    result

def absoluteInplaceAdd (x summand : BigInt p) (startIndex : Nat) : BigInt p × Digit p :=
  summand.digitLength.fold
    (fun i _ (x, carry) =>
      let (sum, newCarry) := digitAdd (x.digit (startIndex + i)) (summand.digit i) 0
      let (sum, newCarry) := digitAdd sum carry newCarry
      (x.setDigit (startIndex + i) sum, newCarry))
    (x, 0)

def absoluteInplaceSub (x subtrahend : BigInt p) (startIndex : Nat) : BigInt p × Digit p :=
  subtrahend.digitLength.fold
    (fun i _ (x, borrow) =>
      let (difference, newBorrow) := digitSub (x.digit (startIndex + i)) (subtrahend.digit i) 0
      let (difference, newBorrow) := digitSub difference borrow newBorrow
      (x.setDigit (startIndex + i) difference, newBorrow))
    (x, 0)

def productGreaterThan (factor1 factor2 high low : Digit p) : Bool :=
  let (resultLow, resultHigh) := digitMul factor1 factor2
  resultHigh > high || (resultHigh == high && resultLow > low)

def inplaceShiftRightDigits (x : BigInt p) (shift last : Nat) : BigInt p × Digit p :=
  last.fold
    (fun i _ (x, carry) =>
      let d := x.digit (i + 1)
      (x.setDigit i ((d <<< (digitBits p - shift)) ||| carry), d >>> shift))
    (x, x.digit 0 >>> shift)

def inplaceRightShiftLowZeroBits (x : BigInt p) (shift : Nat) : BigInt p :=
  if shift = 0 then
    x
  else
    let last := x.digitLength - 1
    let (x, carry) := inplaceShiftRightDigits x shift last
    x.setDigit last carry

inductive LeftShiftMode where
  | sameSizeResult
  | alwaysAddOneDigit
deriving DecidableEq

def absoluteLeftShiftAlwaysCopy (x : BigInt p) (shift : Nat) (mode : LeftShiftMode)
    : JSM p (BigInt p) := do
  let n := x.digitLength
  let resultLength := if mode = .alwaysAddOneDigit then n + 1 else n
  let result ← createUninitialized resultLength x.isNegative
  if shift = 0 then
    let result := copyDigits x 0 result 0 n
    if mode = .alwaysAddOneDigit then
      return result.setDigit n 0
    else
      return result
  else
    let (result, carry) := shiftLeftDigits x shift result 0 n
    if mode = .alwaysAddOneDigit then
      return result.setDigit n carry
    else
      return result

def lowerEstimate (vn1 vn2 ujn2 qhat rhat : Digit p) : Digit p :=
  if productGreaterThan qhat vn2 rhat ujn2 then
    let qhat := qhat - 1
    let newRhat := rhat + vn1
    if newRhat < rhat then
      qhat
    else if _h : rhat < newRhat then
      lowerEstimate vn1 vn2 ujn2 qhat newRhat
    else
      qhat
  else
    qhat
termination_by 2 ^ digitBits p - rhat.toNat
decreasing_by
  have hlt : (rhat + vn1).toNat < 2 ^ digitBits p := (rhat + vn1).isLt
  have hmono : rhat.toNat < (rhat + vn1).toNat := _h
  omega

def estimateQuotientDigit (shiftedDivisor u : BigInt p) (n j : Nat) : Digit p :=
  let vn1 := shiftedDivisor.digit (n - 1)
  let ujn := u.digit (j + n)
  if ujn ≠ vn1 then
    let (qhat, rhat) := digitDiv ujn (u.digit (j + n - 1)) vn1
    let vn2 := shiftedDivisor.digit (n - 2)
    let ujn2 := u.digit (j + n - 2)
    lowerEstimate vn1 vn2 ujn2 qhat rhat
  else
    digitMax p

-- D4. Returns the rest of the dividend, the buffer for `divisor` * `quotient digit` and the digit.
def subtractQuotientDigit (shiftedDivisor qhatv u : BigInt p) (n j : Nat) (qhat : Digit p)
    : BigInt p × BigInt p × Digit p :=
  let qhatv := internalMultiplyAdd shiftedDivisor qhat 0 n qhatv
  let (u, c) := absoluteInplaceSub u qhatv j
  if c ≠ 0 then
    let (u, c) := absoluteInplaceAdd u shiftedDivisor j
    let u := u.setDigit (j + n) (u.digit (j + n) + c)
    (u, qhatv, qhat - 1)
  else
    (u, qhatv, qhat)

-- The loop D2 to D7. Without a quotient to compute `q` is `none`.
def divideDigits (shiftedDivisor : BigInt p) (n m : Nat) (q : Option (BigInt p))
    (qhatv u : BigInt p) : Option (BigInt p) × BigInt p × BigInt p :=
  (m + 1).foldRev
    (fun j _ (q, qhatv, u) =>
      let qhat := estimateQuotientDigit shiftedDivisor u n j
      let (u, qhatv, qhat) := subtractQuotientDigit shiftedDivisor qhatv u n j qhat
      (q.map (fun q => q.setDigit j qhat), qhatv, u))
    (q, qhatv, u)

def allocateQuotient (quotient : Bool) (length : Nat) (isNegative : Bool)
    : JSM p (Option (BigInt p)) :=
  if quotient then
    some <$> createUninitialized length isNegative
  else
    return none

def shiftDivisor (divisor : BigInt p) (shift : Nat) : JSM p (BigInt p) :=
  if shift > 0 then
    absoluteLeftShiftAlwaysCopy divisor shift .sameSizeResult
  else
    return divisor

-- The handle is set to the trimmed cell, not to what the trimming returns.
def trimQuotient (q : Option (BigInt p)) : JSM p (Option (BigInt p)) :=
  match q with
  | some q => do
    let _ ← destructivelyTrimHighZeroDigits q
    return some q.trimHighZeroDigits
  | none => return none

def absoluteDivWithBigIntDivisor (dividend divisor : BigInt p) (quotient remainder : Bool)
    (isNegative : Bool) : JSM p (Option (BigInt p) × Option (BigInt p)) := do
  let n := divisor.digitLength
  let m := dividend.digitLength - n
  let q ← allocateQuotient quotient (m + 1) isNegative
  let qhatv ← createUninitialized (n + 1) isNegative
  let lastDigit := divisor.digit (n - 1)
  let shift := digitLeadingZeroes lastDigit
  let shiftedDivisor ← shiftDivisor divisor shift
  let u ← absoluteLeftShiftAlwaysCopy dividend shift .alwaysAddOneDigit
  let (q, _, u) := divideDigits shiftedDivisor n m q qhatv u
  let q ← trimQuotient q
  return (q, if remainder then some (inplaceRightShiftLowZeroBits u shift) else none)

-- An output that the caller asked for is always there, the `zero` is only for the type.
def trimOutput (output : Option (BigInt p)) : JSM p (BigInt p) :=
  match output with
  | some x => destructivelyTrimHighZeroDigits x
  | none => zero

def div (x y : BigInt p) : JSM p (BigInt p) :=
  if y.isZero then
    throw .bigintDivisionByZero
  else if x.isZero then
    return x
  else if absoluteCompare x y < 0 then
    zero
  else
    let resultNegative := x.isNegative != y.isNegative
    if y.digitLength = 1 then
      let divisor := y.digit 0
      if divisor = 1 then
        if resultNegative = x.isNegative then return x else neg x
      else do
        let (quotient, _) ← absoluteDivWithDigitDivisor x divisor (some none) resultNegative
        trimOutput quotient
    else do
      let (quotient, _) ← absoluteDivWithBigIntDivisor x y true false resultNegative
      trimOutput quotient

def mod (x y : BigInt p) : JSM p (BigInt p) :=
  if y.isZero then
    throw .bigintDivisionByZero
  else if x.isZero then
    return x
  else if absoluteCompare x y < 0 then
    return x
  else if y.digitLength = 1 then
    let divisor := y.digit 0
    if divisor = 1 then
      zero
    else do
      let (_, remainderDigit) ← absoluteDivWithDigitDivisor x divisor none false
      if remainderDigit = 0 then
        zero
      else
        createFromDigit remainderDigit x.isNegative
  else do
    let (_, remainder) ← absoluteDivWithBigIntDivisor x y false true x.isNegative
    trimOutput remainder

end SpiderMonkey.BigInt
