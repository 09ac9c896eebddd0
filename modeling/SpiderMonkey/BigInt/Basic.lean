import Mathlib.Data.Int.NatAbs
import Mathlib.Logic.Function.Basic
import SpiderMonkey.Lib.Ensures

/-!
This module contains the representation of `BigInt` values, their allocation and the operations
that only copy or trim digits.
-/

namespace SpiderMonkey

-- The build settings that select the digit type and the digit arithmetic: `JS_64BIT`, whether
-- `__SIZEOF_INT128__` is defined, and `__x86_64__` (`__i386__` with 32 bit digits).
structure Platform where
  js64Bit : Bool
  sizeofInt128 : Bool
  x86 : Bool

inductive JSMSG where
  | bigintTooLarge
  | bigintDivisionByZero
  | outOfMemory
deriving DecidableEq, Repr

namespace BigInt

def digitBits (p : Platform) : Nat := if p.js64Bit then 64 else 32

abbrev Digit (p : Platform) : Type := BitVec (digitBits p)

def halfDigitBits (p : Platform) : Nat := digitBits p / 2

def maxBitLength : Nat := 1024 * 1024

def maxDigitLength (p : Platform) : Nat := maxBitLength / digitBits p

def inlineDigitsLength (p : Platform) : Nat := (16 - 8) / (digitBits p / 8)

def digitMax (p : Platform) : Digit p := BitVec.allOnes (digitBits p)

end BigInt

/--
A `BigInt` cell. `digit i` is only meaningful below `digitLength`, what lies behind it is whatever
the storage contains.
-/
structure BigInt (p : Platform) where
  digitLength : Nat
  isNegative : Bool
  digit : Nat → BigInt.Digit p

namespace BigInt

variable {p : Platform}

/--
The allocator: the contents of the digit storage that the coming allocations will find. An
allocation fails when none is left.
-/
abbrev Heap (p : Platform) : Type := List (Nat → Digit p)

abbrev JSM (p : Platform) : Type → Type := StateT (Heap p) (Except JSMSG)

def isZero (x : BigInt p) : Bool := x.digitLength == 0

def setDigit (x : BigInt p) (idx : Nat) (digit : Digit p) : BigInt p :=
  { x with digit := Function.update x.digit idx digit }

def allocate : JSM p (Nat → Digit p) := fun heap =>
  match heap with
  | [] => .error .outOfMemory
  | digits :: heap => .ok (digits, heap)

def createUninitialized (digitLength : Nat) (isNegative : Bool) : JSM p (BigInt p) :=
  if digitLength > maxDigitLength p then
    throw .bigintTooLarge
  else do
    let digits ← allocate
    return ⟨digitLength, isNegative, digits⟩

def zero : JSM p (BigInt p) := createUninitialized 0 false

def createFromDigit (d : Digit p) (isNegative : Bool) : JSM p (BigInt p) := do
  let res ← createUninitialized 1 isNegative
  return res.setDigit 0 d

def negativeOne : JSM p (BigInt p) := createFromDigit 1 true

-- The loops that set `n` digits of `result` from index `dst` on to the digits of `x` from `src` on.
def copyDigits (x : BigInt p) (src : Nat) (result : BigInt p) (dst n : Nat) : BigInt p :=
  n.fold (fun i _ result => result.setDigit (dst + i) (x.digit (src + i))) result

def copy (x : BigInt p) : JSM p (BigInt p) :=
  if x.isZero then
    zero
  else do
    let result ← createUninitialized x.digitLength x.isNegative
    return copyDigits x 0 result 0 x.digitLength

def neg (x : BigInt p) : JSM p (BigInt p) :=
  if x.isZero then
    return x
  else do
    let result ← copy x
    return { result with isNegative := !result.isNegative }

-- One more than the index of the highest nonzero digit among the `n` lowest, and 0 without one.
def nonZeroLength (digit : Nat → Digit p) (n : Nat) : Nat :=
  match n with
  | 0 => 0
  | n + 1 => if digit n = 0 then nonZeroLength digit n else n + 1

-- What `destructivelyTrimHighZeroDigits` leaves in the cell it is given: a cell with zero digits
-- only is left alone as the function returns a new one for it.
def trimHighZeroDigits (x : BigInt p) : BigInt p :=
  if nonZeroLength x.digit x.digitLength = 0 then
    x
  else
    { x with digitLength := nonZeroLength x.digit x.digitLength }

def destructivelyTrimHighZeroDigits (x : BigInt p) : JSM p (BigInt p) :=
  if x.isZero then
    return x
  else
    let newLength := nonZeroLength x.digit x.digitLength
    if newLength = 0 then
      zero
    else if newLength = x.digitLength then
      return x
    else if newLength > inlineDigitsLength p then do
      let _ ← allocate
      return x.trimHighZeroDigits
    else
      return x.trimHighZeroDigits

end BigInt
end SpiderMonkey
