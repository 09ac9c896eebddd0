import SpiderMonkey.BigInt.Impl.Shift

/-!
This module contains the bitwise operators.
-/

namespace SpiderMonkey.BigInt

variable {p : Platform}

inductive BitwiseOpKind where
  | SymmetricTrim
  | SymmetricFill
  | AsymmetricFill
deriving DecidableEq, Repr

def opDigits (op : Digit p → Digit p → Digit p) (x y result : BigInt p) (n : Nat) : BigInt p :=
  n.fold (fun i _ result => result.setDigit i (op (x.digit i) (y.digit i))) result

def absoluteBitwiseOp (kind : BitwiseOpKind) (op : Digit p → Digit p → Digit p) (x y : BigInt p) : JSM p
    (BigInt p) := do
  let xLength := x.digitLength
  let yLength := y.digitLength
  let numPairs := min xLength yLength
  let resultLength :=
    match kind with
    | .SymmetricTrim => numPairs
    | .SymmetricFill => max xLength yLength
    | .AsymmetricFill => xLength
  let result ← createUninitialized resultLength false
  let result := opDigits op x y result numPairs
  if kind ≠ .SymmetricTrim then
    let source := if kind = .AsymmetricFill then x else if xLength = numPairs then y else x
    destructivelyTrimHighZeroDigits (copyDigits source numPairs result numPairs (resultLength - numPairs))
  else
    destructivelyTrimHighZeroDigits result

def absoluteAnd (x y : BigInt p) : JSM p (BigInt p) := absoluteBitwiseOp .SymmetricTrim (· &&& ·) x y

def absoluteOr (x y : BigInt p) : JSM p (BigInt p) := absoluteBitwiseOp .SymmetricFill (· ||| ·) x y

def absoluteAndNot (x y : BigInt p) : JSM p (BigInt p) := absoluteBitwiseOp .AsymmetricFill (fun a b => a &&& ~~~b) x y

def absoluteXor (x y : BigInt p) : JSM p (BigInt p) := absoluteBitwiseOp .SymmetricFill (· ^^^ ·) x y

def subOneDigits (x result : BigInt p) (n : Nat) : BigInt p × Digit p :=
  n.fold
    (fun i _ (result, borrow) =>
      let (difference, newBorrow) := digitSub (x.digit i) borrow 0
      (result.setDigit i difference, newBorrow))
    (result, 1)

def absoluteSubOne (x : BigInt p) (resultNegative : Bool) : JSM p (BigInt p) :=
  let length := x.digitLength
  if length = 1 then
    let d := x.digit 0
    if d = 1 then zero else createFromDigit (d - 1) resultNegative
  else do
    let result ← createUninitialized length resultNegative
    destructivelyTrimHighZeroDigits (subOneDigits x result length).1

def bitAnd (x y : BigInt p) : JSM p (BigInt p) :=
  if x.isZero then
    return x
  else if y.isZero then
    return y
  else if !x.isNegative && !y.isNegative then
    absoluteAnd x y
  else if x.isNegative && y.isNegative then do
    let x1 ← absoluteSubOne x false
    let y1 ← absoluteSubOne y false
    let result ← absoluteOr x1 y1
    absoluteAddOne result true
  else do
    let pos := if x.isNegative then y else x
    let neg := if x.isNegative then x else y
    let neg1 ← absoluteSubOne neg false
    absoluteAndNot pos neg1

def bitXor (x y : BigInt p) : JSM p (BigInt p) :=
  if x.isZero then
    return y
  else if y.isZero then
    return x
  else if !x.isNegative && !y.isNegative then
    absoluteXor x y
  else if x.isNegative && y.isNegative then do
    let x1 ← absoluteSubOne x false
    let y1 ← absoluteSubOne y false
    absoluteXor x1 y1
  else do
    let pos := if x.isNegative then y else x
    let neg := if x.isNegative then x else y
    let result ← absoluteSubOne neg false
    let result ← absoluteXor result pos
    absoluteAddOne result true

def bitOr (x y : BigInt p) : JSM p (BigInt p) :=
  if x.isZero then
    return y
  else if y.isZero then
    return x
  else
    let resultNegative := x.isNegative || y.isNegative
    if !resultNegative then
      absoluteOr x y
    else if x.isNegative && y.isNegative then do
      let result ← absoluteSubOne x false
      let y1 ← absoluteSubOne y false
      let result ← absoluteAnd result y1
      absoluteAddOne result resultNegative
    else do
      let pos := if x.isNegative then y else x
      let neg := if x.isNegative then x else y
      let result ← absoluteSubOne neg false
      let result ← absoluteAndNot result pos
      absoluteAddOne result resultNegative

def bitNot (x : BigInt p) : JSM p (BigInt p) :=
  if x.isNegative then absoluteSubOne x false else absoluteAddOne x true

end SpiderMonkey.BigInt
