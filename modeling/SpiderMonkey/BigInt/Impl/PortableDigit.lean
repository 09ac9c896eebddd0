import SpiderMonkey.BigInt.Impl.Digit

/-!
This module contains the variants of `digitMul` and `digitDiv` that do without two digit integers and inline assembly,
with everything that is undefined in them: a shift by the width of a digit or more, a division by zero, an assertion
that fails, a correction loop that needs more rounds than are given. They yield nothing then.
-/

namespace SpiderMonkey.BigInt.Portable

variable {p : Platform}

def shiftLeft (x : Digit p) (distance : Nat) : Option (Digit p) :=
  if distance < digitBits p then some (x <<< distance) else none

def shiftRight (x : Digit p) (distance : Nat) : Option (Digit p) :=
  if distance < digitBits p then some (x >>> distance) else none

def quotient (x y : Digit p) : Option (Digit p) := if y ≠ 0 then some (x / y) else none

-- Returns the low digit, and what is stored to `high`.
def digitMul (a b : Digit p) : Option (Digit p × Digit p) := do
  let aLow := a &&& halfDigitMask p
  let aHigh ← shiftRight a (halfDigitBits p)
  let bLow := b &&& halfDigitMask p
  let bHigh ← shiftRight b (halfDigitBits p)
  let rLow := aLow * bLow
  let rMid1 := aLow * bHigh
  let rMid2 := aHigh * bLow
  let rHigh := aHigh * bHigh
  let low := digitAdd rLow (← shiftLeft rMid1 (halfDigitBits p)) 0
  let low := digitAdd low.1 (← shiftLeft rMid2 (halfDigitBits p)) low.2
  some (low.1, (← shiftRight rMid1 (halfDigitBits p)) + (← shiftRight rMid2 (halfDigitBits p)) + rHigh + low.2)

-- `0` if `s` is, and all 1-bits otherwise: an arithmetic shift of the negated `intptr_t`.
def sZeroMask (p : Platform) (s : Nat) : Digit p := (-BitVec.ofNat (digitBits p) s).sshiftRight (digitBits p - 1)

-- Both correction loops, from the estimate on.
def lowerEstimate (vn1 vn0 un : Digit p) : (rounds : Nat) → (q rhat : Digit p) → Option (Digit p)
  | 0, _, _ => none
  | rounds + 1, q, rhat =>
    if q ≥ halfDigitBase p ∨ q * vn0 > rhat * halfDigitBase p + un then
      let q := q - 1
      let rhat := rhat + vn1
      if rhat ≥ halfDigitBase p then some q else lowerEstimate vn1 vn0 un rounds q rhat
    else some q

-- Returns the quotient, and what is stored to `remainder`.
def digitDiv (rounds : Nat) (high low divisor : Digit p) : Option (Digit p × Digit p) := do
  guard (high < divisor)
  let s := digitLeadingZeroes divisor
  guard (s ≠ digitBits p)
  let divisor ← shiftLeft divisor s
  let vn1 ← shiftRight divisor (halfDigitBits p)
  let vn0 := divisor &&& halfDigitMask p
  let shiftMask := digitBits p - 1
  let un32 := (← shiftLeft high s) ||| ((← shiftRight low ((digitBits p - s) &&& shiftMask)) &&& sZeroMask p s)
  let un10 ← shiftLeft low s
  let un1 ← shiftRight un10 (halfDigitBits p)
  let un0 := un10 &&& halfDigitMask p
  let q1 ← quotient un32 vn1
  let rhat := un32 - q1 * vn1
  let q1 ← lowerEstimate vn1 vn0 un1 rounds q1 rhat
  let un21 := un32 * halfDigitBase p + un1 - q1 * divisor
  let q0 ← quotient un21 vn1
  let rhat := un21 - q0 * vn1
  let q0 ← lowerEstimate vn1 vn0 un0 rounds q0 rhat
  let remainder ← shiftRight (un21 * halfDigitBase p + un0 - q0 * divisor) s
  some (q1 * halfDigitBase p + q0, remainder)

end SpiderMonkey.BigInt.Portable
