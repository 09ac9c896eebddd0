import SpiderMonkey.Builtin.Impl.JSON

/-!
This module contains how replacement templates of regular expressions are expanded. A pointer into the template is what
follows it up to the end. Reading outside of a string or of a list of captures, appending more than is reserved and
appending two-byte units to a Latin-1 buffer yield `none`, and so does a loop that does not end. Allocation is taken to
succeed.
-/

namespace SpiderMonkey.RegExp

open JSON

def MaxStringLength : Nat := 2 ^ 30 - 2

def AsciiDigitToNumber (c : CharT) : Nat := c.toNat - 0x30

def js_strchr_limit (c : CharT) : (s : List CharT) → Option (List CharT)
  | [] => none
  | x :: s => if x = c then some (x :: s) else js_strchr_limit c s

def GetFirstDollarIndexRawFlat (text : JSLinearString) : Int :=
  match js_strchr_limit '$' text.units with
  | some s => text.units.length - s.length
  | none => -1

structure JSSubString where
  base : JSLinearString
  offset : Nat
  length : Nat

def GetParen (matched : JSLinearString) (capture : Option JSLinearString) : JSSubString :=
  match capture with
  | none => ⟨matched, 0, 0⟩
  | some captureLinear => ⟨captureLinear, 0, captureLinear.length⟩

abbrev CapturesVector := List (Option JSLinearString)

structure Substitution where
  matched : JSLinearString
  string : JSLinearString
  position : Nat
  tailPos : Nat
  captures : CapturesVector
  namedCaptures : CapturesVector
  replacement : JSLinearString

namespace Substitution

variable (s : Substitution)

-- Gives the units to put in the place of a dollar, how many units to skip and the next named capture, when there is
-- something to put there.
def InterpretDollar (currentDollar : List CharT) (currentNamedCapture : Nat)
    : Option (Option (JSSubString × Nat × Nat)) :=
  match currentDollar with
  | [] => none
  | [_] => some none
  | _ :: c :: currentChar =>
    if IsAsciiDigit c then
      let num := AsciiDigitToNumber c
      if num > s.captures.length then some none
      else
        let (num, skip) :=
          match currentChar with
          | [] => (num, 2)
          | c :: _ =>
            if IsAsciiDigit c then
              let tmpNum := 10 * num + AsciiDigitToNumber c
              if tmpNum ≤ s.captures.length then (tmpNum, 3) else (num, 2)
            else (num, 2)
        if num = 0 then some none
        else do
          let capture ← s.captures[num - 1]?
          some (some (GetParen s.matched capture, skip, currentNamedCapture))
    else if c = '<' then
      if s.namedCaptures.length = 0 then some none
      else
        match js_strchr_limit '>' currentChar with
        | none => some none
        | some nameEnd => do
          let nameLength := currentChar.length - nameEnd.length
          let capture ← s.namedCaptures[currentNamedCapture]?
          some (some (GetParen s.matched capture, nameLength + 3, currentNamedCapture + 1))
    else
      let substitute (sub : JSSubString) := some (some (sub, 2, currentNamedCapture))
      if c = '$' then substitute ⟨s.replacement, s.replacement.units.length - currentDollar.length, 1⟩
      else if c = '&' then substitute ⟨s.matched, 0, s.matched.length⟩
      else if c = '+' then
        if s.captures.length = 0 then substitute ⟨s.matched, 0, 0⟩
        else do
          let capture ← s.captures[s.captures.length - 1]?
          substitute (GetParen s.matched capture)
      else if c = '`' then substitute ⟨s.string, 0, s.position⟩
      -- The difference is one of type `size_t`.
      else if c = '\'' then substitute ⟨s.string, s.tailPos, (2 ^ 64 + s.string.length - s.tailPos) % 2 ^ 64⟩
      else some none

def checkedAdd (a : Option Nat) (b : Nat) : Option Nat :=
  a.bind fun a => if b < 2 ^ 32 ∧ a + b < 2 ^ 32 then some (a + b) else none

def checkedSub (a : Option Nat) (b : Nat) : Option Nat :=
  a.bind fun a => if b < 2 ^ 32 ∧ b ≤ a then some (a - b) else none

def FindReplaceLengthFrom : (rounds : Nat) → (currentDollar : List CharT) → (currentNamedCapture : Nat)
    → (replen : Option Nat) → Option (Option Nat)
  | 0, _, _, _ => none
  | rounds + 1, currentDollar, currentNamedCapture, replen => do
    let (currentDollar, currentNamedCapture, replen) ← (
      match ← s.InterpretDollar currentDollar currentNamedCapture with
      | some (sub, skip, currentNamedCapture) =>
        let replen :=
          if sub.length > skip then checkedAdd replen (sub.length - skip)
          else checkedSub replen (skip - sub.length)
        if skip ≤ currentDollar.length then some (currentDollar.drop skip, currentNamedCapture, replen) else none
      | none => some (currentDollar.drop 1, currentNamedCapture, replen))
    match js_strchr_limit '$' currentDollar with
    | some currentDollar => FindReplaceLengthFrom rounds currentDollar currentNamedCapture replen
    | none => some replen

def FindReplaceLength (firstDollarIndex : Nat) : Option (Option Nat) :=
  let units := s.replacement.units
  s.FindReplaceLengthFrom (units.length + 1) (units.drop firstDollarIndex) 0 (checkedAdd (some 0) units.length)

end Substitution

structure JSStringBuilder where
  buffer : StringBuffer
  reserved : Nat

namespace JSStringBuilder

def infallibleAppend (isLatin1 : Bool) (chars : List CharT) (sb : JSStringBuilder) : Option JSStringBuilder :=
  if !isLatin1 && sb.buffer.isUnderlyingBufferLatin1 then none
  else if sb.buffer.chars.length + chars.length > sb.reserved then none
  else some { sb with buffer := { sb.buffer with chars := sb.buffer.chars ++ chars } }

def infallibleAppendSubstring (sub : JSSubString) (sb : JSStringBuilder) : Option JSStringBuilder :=
  if sub.offset + sub.length > sub.base.length then none
  else sb.infallibleAppend (!sub.base.hasTwoByteChars) ((sub.base.units.drop sub.offset).take sub.length)

end JSStringBuilder

namespace Substitution

variable (s : Substitution)

def DoReplaceFrom : (rounds : Nat) → (currentChar currentDollar : List CharT) → (currentNamedCapture : Nat)
    → (sb : JSStringBuilder) → Option JSStringBuilder
  | 0, _, _, _, _ => none
  | rounds + 1, currentChar, currentDollar, currentNamedCapture, sb => do
    let len := currentChar.length - currentDollar.length
    let sb ← sb.infallibleAppend (!s.replacement.hasTwoByteChars) (currentChar.take len)
    let (currentChar, currentDollar, currentNamedCapture, sb) ← (
      match ← s.InterpretDollar currentDollar currentNamedCapture with
      | some (sub, skip, currentNamedCapture) => do
        let sb ← sb.infallibleAppendSubstring sub
        if skip ≤ currentDollar.length then
          some (currentDollar.drop skip, currentDollar.drop skip, currentNamedCapture, sb)
        else none
      | none => some (currentDollar, currentDollar.drop 1, currentNamedCapture, sb))
    match js_strchr_limit '$' currentDollar with
    | some currentDollar => DoReplaceFrom rounds currentChar currentDollar currentNamedCapture sb
    | none => sb.infallibleAppend (!s.replacement.hasTwoByteChars) currentChar

def DoReplace (firstDollarIndex : Nat) (sb : JSStringBuilder) : Option JSStringBuilder :=
  let units := s.replacement.units
  s.DoReplaceFrom (units.length + 1) units (units.drop firstDollarIndex) 0 sb

def NeedTwoBytes : Bool :=
  s.string.hasTwoByteChars || s.replacement.hasTwoByteChars || s.matched.hasTwoByteChars
    || s.captures.any (fun capture => capture.any (·.hasTwoByteChars))
    || s.namedCaptures.any (fun capture => capture.any (·.hasTwoByteChars))

end Substitution

def CollectNamesFrom : (rounds : Nat) → (currentDollar : List CharT) → (names : List (List CharT))
    → Option (List (List CharT))
  | 0, _, _ => none
  | rounds + 1, currentDollar, names =>
    match currentDollar with
    | _ :: c :: nameStart =>
      if c = '<' then
        match js_strchr_limit '>' nameStart with
        | none => some names
        | some nameEnd =>
          let nameLength := nameStart.length - nameEnd.length
          let names := names ++ [nameStart.take nameLength]
          match js_strchr_limit '$' (nameEnd.drop 1) with
          | some currentDollar => CollectNamesFrom rounds currentDollar names
          | none => some names
      else
        match js_strchr_limit '$' nameStart with
        | some currentDollar => CollectNamesFrom rounds currentDollar names
        | none => some names
    | _ => some names

def CollectNames (replacement : JSLinearString) (firstDollarIndex : Nat) : Option (List (List CharT)) :=
  CollectNamesFrom (replacement.units.length + 1) (replacement.units.drop firstDollarIndex) []

section

-- Script runs when a property is read, with a state and errors of its own.
variable {σ ε : Type}

abbrev Groups (σ ε : Type) := List CharT → StateT σ (Except ε) (Option JSLinearString)

def InitNamedCaptures (replacement : JSLinearString) (groups : Groups σ ε) (firstDollarIndex : Nat)
    : StateT σ (Except ε) (Option CapturesVector) := do
  match CollectNames replacement firstDollarIndex with
  | none => return none
  | some names => return some (← names.mapM groups)

def initNamedCaptures (replacement : JSLinearString) (groups : Option (Groups σ ε)) (firstDollarIndex : Nat)
    : StateT σ (Except ε) (Option CapturesVector) :=
  match groups with
  | some groups => InitNamedCaptures replacement groups firstDollarIndex
  | none => return some []

def replaceWith (matched string : JSLinearString) (position : Nat) (captures : CapturesVector)
    (replacement : JSLinearString) (firstDollarIndex : Nat) (namedCaptures : CapturesVector)
    : Option (Option (List CharT)) :=
  match Substitution.checkedAdd (Substitution.checkedAdd (some 0) position) matched.length with
  | none => some none
  | some tailPos => do
    let s : Substitution := ⟨matched, string, position, tailPos, captures, namedCaptures, replacement⟩
    match ← s.FindReplaceLength firstDollarIndex with
    | none => some none
    | some reserveLength =>
      let result ← s.DoReplace firstDollarIndex ⟨⟨!s.NeedTwoBytes, []⟩, reserveLength⟩
      if result.buffer.chars.length > MaxStringLength then some none else some (some result.buffer.chars)

def RegExpGetSubstitution (allocationOverflow : ε) (matched : JSLinearString) (captures : CapturesVector)
    (string : JSLinearString) (position : Nat) (replacement : JSLinearString) (firstDollarIndex : Nat)
    (groups : Option (Groups σ ε)) : StateT σ (Except ε) (Option (List CharT)) := do
  match ← initNamedCaptures replacement groups firstDollarIndex with
  | none => return none
  | some namedCaptures =>
    match replaceWith matched string position captures replacement firstDollarIndex namedCaptures with
    | none => return none
    | some none => throw allocationOverflow
    | some (some result) => return some result

end

end SpiderMonkey.RegExp
