import Mathlib.Data.Int.NatAbs

/-!
This module contains the units of a source text, how the code points in them are counted and how a pointer is
taken back to the start of a code point.
-/

namespace SpiderMonkey.Frontend

abbrev Utf8Unit := BitVec 8

abbrev char16_t := BitVec 16

inductive Encoding where
  | UTF8
  | UTF16
deriving DecidableEq, Repr

abbrev Encoding.Unit : Encoding → Type
  | UTF8 => Utf8Unit
  | UTF16 => char16_t

structure SourceUnits (e : Encoding) where
  base : List e.Unit
  startOffset : Nat

def SourceUnits.codeUnitPtrAt {e : Encoding} (sourceUnits : SourceUnits e) (offset : Nat) : Nat :=
  offset - sourceUnits.startOffset

def IsAscii (unit : Utf8Unit) : Bool := unit.toNat < 0x80

def IsTrailingUnit (unit : Utf8Unit) : Bool := unit &&& 0b11000000 = 0b10000000

def IsLeadSurrogate (unit : char16_t) : Bool := 0xD800 ≤ unit.toNat && unit.toNat ≤ 0xDBFF

def IsTrailSurrogate (unit : char16_t) : Bool := 0xDC00 ≤ unit.toNat && unit.toNat ≤ 0xDFFF

section

variable (units : List Utf8Unit)

def readTrailingUnits : Nat → Nat → Nat → Option (Option Nat)
  | 0, _, n => some (some n)
  | remaining + 1, iter, n => do
    let unit ← units[iter]?
    if IsTrailingUnit unit then
      readTrailingUnits remaining (iter + 1) (n <<< 6 ||| (unit.toNat &&& 0b00111111))
    else some none

-- The number of units that follow a lead unit, the least code point that has so many, and the bits that the lead
-- unit contributes.
def leadUnitInfo (leadUnit : Utf8Unit) : Option (Nat × Nat × Nat) :=
  let n := leadUnit.toNat
  if n &&& 0b11100000 = 0b11000000 then some (1, 0x80, n &&& 0b00011111)
  else if n &&& 0b11110000 = 0b11100000 then some (2, 0x800, n &&& 0b00001111)
  else if n &&& 0b11111000 = 0b11110000 then some (3, 0x10000, n &&& 0b00000111)
  else none

def DecodeOneUtf8CodePoint (leadUnit : Utf8Unit) (iter last : Nat) : Option (Option Nat × Nat) :=
  match leadUnitInfo leadUnit with
  | none => some (none, iter - 1)
  | some (remaining, min, n) =>
    if last - iter < remaining then some (none, iter - 1)
    else do
      match ← readTrailingUnits units remaining iter n with
      | none => some (none, iter - 1)
      | some n =>
        if n > 0x10FFFF ∨ 0xD800 ≤ n ∧ n ≤ 0xDFFF then some (none, iter - 1)
        else if n < min then some (none, iter - 1)
        else some (some n, iter + remaining)

def advanceUtf8 (last ptr : Nat) : Option Nat := do
  let lead ← units[ptr]?
  if IsAscii lead then some (ptr + 1)
  else
    let (_, ptr) ← DecodeOneUtf8CodePoint units lead (ptr + 1) last
    some ptr

def rewindTrailingUnits : Nat → Option Nat
  | 0 => do
    let unit ← units[0]?
    if IsTrailingUnit unit then none else some 0
  | ptr + 1 => do
    let unit ← units[ptr + 1]?
    if IsTrailingUnit unit then rewindTrailingUnits ptr else some (ptr + 1)

end

section

variable (units : List char16_t)

def advanceUtf16 (last ptr : Nat) : Option Nat := do
  let unit ← units[ptr]?
  if IsLeadSurrogate unit = false then some (ptr + 1)
  else if ptr + 1 < last then do
    let next ← units[ptr + 1]?
    if IsTrailSurrogate next then some (ptr + 2) else some (ptr + 1)
  else some (ptr + 1)

def retractFromTrail (ptr : Nat) : Option Nat := do
  let unit ← units[ptr]?
  if IsTrailSurrogate unit then
    match ptr with
    | 0 => none
    | before + 1 => do
      let unit ← units[before]?
      if IsLeadSurrogate unit then some before else some (before + 1)
  else some ptr

end

def countWhile (advance : Nat → Option Nat) (last : Nat) : Nat → Nat → Nat → Option Nat
  | 0, _, _ => none
  | rounds + 1, ptr, count =>
    if ptr < last then do
      let ptr ← advance ptr
      countWhile advance last rounds ptr (count + 1)
    else some count

def CountCodePoints {e : Encoding} (units : List e.Unit) (first last : Nat) : Option Nat :=
  match e with
  | .UTF8 => countWhile (advanceUtf8 units last) last (last - first + 1) first 0
  | .UTF16 => countWhile (advanceUtf16 units last) last (last - first + 1) first 0

def RetractPointerToCodePointBoundary {e : Encoding} (units : List e.Unit) (ptr limit : Nat) : Option Nat :=
  if ptr = limit then some ptr
  else
    match e with
    | .UTF8 => rewindTrailingUnits units ptr
    | .UTF16 => retractFromTrail units ptr

end SpiderMonkey.Frontend
