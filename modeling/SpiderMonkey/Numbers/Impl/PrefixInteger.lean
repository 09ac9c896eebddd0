import SpiderMonkey.Vm.Impl.JSONParser

/-!
This module contains how the digits at the start of a string are read as an integer. An assertion that fails, or reading
outside the string, gives no result.
-/

namespace SpiderMonkey.PrefixInteger

inductive IntegerSeparatorHandling where
  | None
  | SkipUnderscore
deriving DecidableEq

def DOUBLE_INTEGRAL_PRECISION_LIMIT : Nat := 2 ^ 53

def AssertWellPlacedNumericSeparator (chars : List CharT) (s : Nat) : Option Unit := do
  guard (0 < chars.length)
  guard (0 < s)
  guard (s + 1 < chars.length)
  guard (chars[s + 1]? ≠ some (unit '_'))
  guard (chars[s - 1]? ≠ some (unit '_'))

-- The index of the remaining digits stands for the pointer to them.
structure BinaryDigitReader where
  digit : Nat
  digitMask : Nat
  cur : Nat
deriving DecidableEq

namespace BinaryDigitReader

variable (chars : List CharT) (base : Nat)

def takeBit (r : BinaryDigitReader) : Nat × BinaryDigitReader :=
  (if r.digit &&& r.digitMask ≠ 0 then 1 else 0, { r with digitMask := r.digitMask >>> 1 })

def readDigit (r : BinaryDigitReader) : Option BinaryDigitReader := do
  let c ← chars[r.cur]?
  let (c, cur) ← (if c = '_' then do
      AssertWellPlacedNumericSeparator chars r.cur
      some (← chars[r.cur + 1]?, r.cur + 2)
    else some (c, r.cur + 1))
  guard (IsAsciiAlphanumeric c)
  return { digit := AsciiAlphanumericToNumber c, digitMask := base >>> 1, cur }

def nextDigit (r : BinaryDigitReader) : Option (Option Nat × BinaryDigitReader) := do
  if r.digitMask = 0 then
    if r.cur = chars.length then return (none, r)
    else
      let (bit, r) := takeBit (← r.readDigit chars base)
      return (some bit, r)
  else
    let (bit, r) := r.takeBit
    return (some bit, r)

end BinaryDigitReader

section

open BinaryDigitReader

variable (chars : List CharT) (base : Nat)

def skipLeadingZeroes : (fuel : Nat) → BinaryDigitReader → Option (Option Nat × BinaryDigitReader)
  | 0, _ => none
  | fuel + 1, bdr => do
    let (bit, bdr) ← bdr.nextDigit chars base
    if bit = some 0 then skipLeadingZeroes fuel bdr else return (bit, bdr)

def gather : (j : Nat) → (value : IntegralDouble) → (bit : Nat) → BinaryDigitReader
    → Option (IntegralDouble × Option (Nat × BinaryDigitReader))
  | 0, value, bit, bdr => some (value, some (bit, bdr))
  | j + 1, value, _, bdr => do
    match ← bdr.nextDigit chars base with
    | (none, _) => return (value, none)
    | (some bit, bdr) => gather j ((value.mul (.finite 2)).add (.finite bit)) bit bdr

def gatherSticky : (fuel : Nat) → (factor : IntegralDouble) → (sticky : Nat) → BinaryDigitReader
    → Option (IntegralDouble × Nat)
  | 0, _, _, _ => none
  | fuel + 1, factor, sticky, bdr => do
    match ← bdr.nextDigit chars base with
    | (none, _) => return (factor, sticky)
    | (some bit3, bdr) => gatherSticky fuel (factor.mul (.finite 2)) (sticky ||| bit3) bdr

-- The loops end because a digit has at most five bits.
def ComputeAccurateBinaryBaseInteger : Option IntegralDouble := do
  let fuel := 5 * chars.length + 1
  let (bit, bdr) ← skipLeadingZeroes chars base fuel { digit := 0, digitMask := 0, cur := 0 }
  guard (bit = some 1)
  match ← gather chars base 52 (.finite 1) 1 bdr with
  | (value, none) => return value
  | (value, some (bit, bdr)) =>
    match ← bdr.nextDigit chars base with
    | (none, _) => return value
    | (some bit2, bdr) =>
      let (factor, sticky) ← gatherSticky chars base fuel (.finite 2) 0 bdr
      return (value.add (.finite (bit2 &&& (bit ||| sticky) : Nat))).mul factor

variable (separatorHandling : IntegerSeparatorHandling)

def accumulate : (rest : List CharT) → (s : Nat) → (d : IntegralDouble) → Option (Nat × IntegralDouble)
  | [], s, d => some (s, d)
  | c :: rest, s, d => do
    if ¬IsAsciiAlphanumeric c then
      if c = '_' ∧ separatorHandling = .SkipUnderscore then
        AssertWellPlacedNumericSeparator chars s
        accumulate rest (s + 1) d
      else return (s, d)
    else
      let digit := AsciiAlphanumericToNumber c
      if digit ≥ base then return (s, d)
      else accumulate rest (s + 1) ((d.mul (.finite base)).add (.finite digit))

end

-- The number of characters before the end, and the integer; decimal ones are computed elsewhere.
def GetPrefixInteger (ComputeAccurateDecimalInteger : List CharT → Option IntegralDouble) (chars : List CharT)
    (base : Nat) (separatorHandling : IntegerSeparatorHandling) : Option (Nat × IntegralDouble) := do
  guard (2 ≤ base ∧ base ≤ 36)
  let (s, d) ← accumulate chars base separatorHandling chars 0 (.finite 0)
  if (JSON.isBelow d DOUBLE_INTEGRAL_PRECISION_LIMIT).isSome then return (s, d)
  else if base = 10 then return (s, ← ComputeAccurateDecimalInteger (chars.take s))
  else if base &&& (base - 1) = 0 then return (s, ← ComputeAccurateBinaryBaseInteger (chars.take s) base)
  else return (s, d)

end SpiderMonkey.PrefixInteger
