import SpiderMonkey.Builtin.Impl.RegExp

/-!
This module contains what the specification says about the expansion of replacement templates.
-/

namespace SpiderMonkey.RegExp

open JSON

inductive Symbol where
  | unit (c : CharT)
  | dollar
  | matched
  | before
  | after
  | last
  | capture (n : Nat)
  | named (name : List CharT)
deriving DecidableEq

def captureSymbol (m : Nat) (c : CharT) (rest : List CharT) : Option (Symbol × Nat) :=
  let one := AsciiDigitToNumber c
  let two :=
    match rest with
    | [] => none
    | c :: _ =>
      if IsAsciiDigit c ∧ 10 * one + AsciiDigitToNumber c ≤ m then some (10 * one + AsciiDigitToNumber c) else none
  match two with
  | some n => if 1 ≤ n then some (.capture n, 2) else none
  | none => if 1 ≤ one ∧ one ≤ m then some (.capture one, 1) else none

-- What a dollar with the units after it stands for, and how many of them belong to it. There are `m` captures. The
-- symbol `$+` is one of the extension only.
def symbolOf (extended : Bool) (m : Nat) (hasGroups : Bool) : (rest : List CharT) → Option (Symbol × Nat)
  | [] => none
  | c :: rest =>
    if IsAsciiDigit c then captureSymbol m c rest
    else if c = '<' then
      if hasGroups ∧ unit '>' ∈ rest then
        let name := rest.takeWhile (· ≠ unit '>')
        some (.named name, name.length + 2)
      else none
    else if c = '$' then some (.dollar, 1)
    else if c = '&' then some (.matched, 1)
    else if c = '+' ∧ extended then some (.last, 1)
    else if c = '`' then some (.before, 1)
    else if c = '\'' then some (.after, 1)
    else none

def symbols (extended : Bool) (m : Nat) (hasGroups : Bool) : (skip : Nat) → (template : List CharT) → List Symbol
  | _, [] => []
  | skip + 1, _ :: rest => symbols extended m hasGroups skip rest
  | 0, c :: rest =>
    if c = '$' then
      match symbolOf extended m hasGroups rest with
      | some (symbol, n) => symbol :: symbols extended m hasGroups n rest
      | none => .unit c :: symbols extended m hasGroups 0 rest
    else .unit c :: symbols extended m hasGroups 0 rest

def captureText : Option JSLinearString → List CharT
  | none => []
  | some capture => capture.units

def symbolText (matched string : JSLinearString) (position : Nat) (captures : CapturesVector) : Symbol → List CharT
  | .unit c => [c]
  | .dollar => [unit '$']
  | .matched => matched.units
  | .before => string.units.take position
  | .after => string.units.drop (position + matched.length)
  | .last => captureText captures.getLast?.join
  | .capture n => captureText captures[n - 1]?.join
  | .named _ => []

section

variable {σ ε : Type}

def expandSymbol (matched string : JSLinearString) (position : Nat) (captures : CapturesVector) (get : Groups σ ε)
    : Symbol → StateT σ (Except ε) (List CharT)
  | .named name => do return captureText (← get name)
  | symbol => return symbolText matched string position captures symbol

def GetSubstitution (extended : Bool) (matched string : JSLinearString) (position : Nat) (captures : CapturesVector)
    (replacement : JSLinearString) (groups : Option (Groups σ ε)) : StateT σ (Except ε) (List CharT) := do
  let template := symbols extended captures.length groups.isSome 0 replacement.units
  let get := groups.getD fun _ => return none
  let parts ← template.mapM (expandSymbol matched string position captures get)
  return parts.flatten

end

def Symbol.name? : Symbol → Option (List CharT)
  | .named name => some name
  | _ => none

def names (template : List Symbol) : List (List CharT) := template.filterMap (·.name?)

def Symbol.remaining (symbol : Symbol) (vals : CapturesVector) : CapturesVector :=
  match symbol with
  | .named _ => vals.tail
  | _ => vals

namespace Substitution

variable (s : Substitution)

def textWith (vals : CapturesVector) : Symbol → List CharT
  | .named _ => captureText vals.head?.join
  | symbol => symbolText s.matched s.string s.position s.captures symbol

def expandWith : List Symbol → CapturesVector → List CharT
  | [], _ => []
  | symbol :: template, vals => s.textWith vals symbol ++ expandWith template (symbol.remaining vals)

def text (hasGroups : Bool) : List CharT :=
  s.expandWith (symbols true s.captures.length hasGroups 0 s.replacement.units) s.namedCaptures

def Named (hasGroups : Bool) : Prop :=
  s.namedCaptures.length
    = if hasGroups then (names (symbols true s.captures.length true 0 s.replacement.units)).length else 0

end Substitution

end SpiderMonkey.RegExp
