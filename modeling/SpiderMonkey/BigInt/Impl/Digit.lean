import SpiderMonkey.BigInt.Basic

/-!
This module contains the arithmetic on single digits, with one variant for each kind of platform.
-/

namespace SpiderMonkey.BigInt

variable {p : Platform}

def digitAdd (a b carry : Digit p) : Digit p × Digit p :=
  let result := a + b
  (result, carry + (if result < a then 1 else 0))

def digitSub (left right borrow : Digit p) : Digit p × Digit p :=
  let result := left - right
  (result, borrow + (if result > left then 1 else 0))

def haveTwoDigit (p : Platform) : Bool := !p.js64Bit || p.sizeofInt128

def halfDigitMask (p : Platform) : Digit p := BitVec.ofNat _ (2 ^ halfDigitBits p - 1)

def digitMul (a b : Digit p) : Digit p × Digit p :=
  if haveTwoDigit p then
    let result : BitVec (digitBits p + digitBits p) := a.setWidth _ * b.setWidth _
    (result.setWidth _, (result >>> digitBits p).setWidth _)
  else
    let aLow := a &&& halfDigitMask p
    let aHigh := a >>> halfDigitBits p
    let bLow := b &&& halfDigitMask p
    let bHigh := b >>> halfDigitBits p
    let rLow := aLow * bLow
    let rMid1 := aLow * bHigh
    let rMid2 := aHigh * bLow
    let rHigh := aHigh * bHigh
    let (low, carry) := digitAdd rLow (rMid1 <<< halfDigitBits p) 0
    let (low, carry) := digitAdd low (rMid2 <<< halfDigitBits p) carry
    (low, (rMid1 >>> halfDigitBits p) + (rMid2 >>> halfDigitBits p) + rHigh + carry)

def digitLeadingZeroes (x : Digit p) : Nat := x.clz.toNat

def halfDigitBase (p : Platform) : Digit p := (1 : Digit p) <<< halfDigitBits p

/--
The two loops of `digitDiv` that lower the estimate `q` of a half digit: `un` is the next half
digit of the dividend, `vn1` and `vn0` are the half digits of the divisor.
-/
def lowerHalfEstimate (vn1 vn0 un q rhat : Digit p) : Digit p :=
  if q ≥ halfDigitBase p ∨ q * vn0 > rhat * halfDigitBase p + un then
    let q := q - 1
    let newRhat := rhat + vn1
    if newRhat ≥ halfDigitBase p then
      q
    else if _h : rhat < newRhat then
      lowerHalfEstimate vn1 vn0 un q newRhat
    else
      q
  else
    q
termination_by 2 ^ digitBits p - rhat.toNat
decreasing_by
  have hlt : (rhat + vn1).toNat < 2 ^ digitBits p := (rhat + vn1).isLt
  have hmono : rhat.toNat < (rhat + vn1).toNat := _h
  omega

def digitDiv (high low divisor : Digit p) : Digit p × Digit p :=
  if p.x86 then
    let dividend := high ++ low
    ((dividend / divisor.setWidth _).setWidth _, (dividend % divisor.setWidth _).setWidth _)
  else
    let s := digitLeadingZeroes divisor
    let divisor := divisor <<< s
    let vn1 := divisor >>> halfDigitBits p
    let vn0 := divisor &&& halfDigitMask p
    let sZeroMask : Digit p := if s = 0 then 0 else digitMax p
    let shiftMask := digitBits p - 1
    let un32 := (high <<< s) ||| ((low >>> ((digitBits p - s) &&& shiftMask)) &&& sZeroMask)
    let un10 := low <<< s
    let un1 := un10 >>> halfDigitBits p
    let un0 := un10 &&& halfDigitMask p
    let q1 := un32 / vn1
    let rhat := un32 - q1 * vn1
    let q1 := lowerHalfEstimate vn1 vn0 un1 q1 rhat
    let un21 := un32 * halfDigitBase p + un1 - q1 * divisor
    let q0 := un21 / vn1
    let rhat := un21 - q0 * vn1
    let q0 := lowerHalfEstimate vn1 vn0 un0 q0 rhat
    (q1 * halfDigitBase p + q0, (un21 * halfDigitBase p + un0 - q0 * divisor) >>> s)

end SpiderMonkey.BigInt
