import SpiderMonkey.Lib.IntegralDouble
import SpiderMonkey.Lib.Loop
import SpiderMonkey.Lib.RangedPtr

/-!
This module contains the parser for JSON text: the functions that read one token, and the automaton that keeps
the arrays and objects in progress on a stack. Reading outside the text, using a vector that is not there and
failing an assertion all yield `none`. Allocation is taken to succeed.
-/

namespace SpiderMonkey

abbrev CharT := BitVec 16

abbrev unit (c : Char) : CharT := .ofNat 16 c.toNat

instance : Coe Char CharT := ⟨unit⟩

def IsAsciiDigit (c : CharT) : Bool := 0x30 ≤ c.toNat && c.toNat ≤ 0x39

def IsAsciiHexDigit (c : CharT) : Bool :=
  (0x30 ≤ c.toNat && c.toNat ≤ 0x39) || (0x61 ≤ c.toNat && c.toNat ≤ 0x66) ||
    (0x41 ≤ c.toNat && c.toNat ≤ 0x46)

def IsAsciiAlphanumeric (c : CharT) : Bool :=
  IsAsciiDigit c || (0x61 ≤ c.toNat && c.toNat ≤ 0x7A) || (0x41 ≤ c.toNat && c.toNat ≤ 0x5A)

def AsciiAlphanumericToNumber (c : CharT) : Nat :=
  if 0x30 ≤ c.toNat ∧ c.toNat ≤ 0x39 then c.toNat - 0x30
  else if 0x41 ≤ c.toNat ∧ c.toNat ≤ 0x5A then c.toNat - 0x41 + 10
  else c.toNat - 0x61 + 10

namespace JSON

inductive ParseType where
  | JSONParse
  | AttemptForEval
deriving DecidableEq, Repr

structure Report where
  msg : String
  line : Nat
  column : Nat
deriving DecidableEq, Repr

inductive Value (D : Type) where
  | Undefined
  | Null
  | Boolean (b : Bool)
  | Number (d : D)
  | String (s : List CharT)
  | Array (elements : List (Value D))
  | Object (properties : List (List CharT × Value D))

structure IdValuePair (D : Type) where
  id : List CharT
  value : Value D := .Undefined

inductive Token (D : Type) where
  | String (s : List CharT)
  | Number (d : D)
  | True
  | False
  | Null
  | ArrayOpen
  | ArrayClose
  | ObjectOpen
  | ObjectClose
  | Colon
  | Comma
  | Error (report : Report)
deriving DecidableEq, Repr

-- The type of doubles, with what the conversions of decimal literals take from outside this file.
structure Conversions (D : Type) where
  static_cast : Nat → D
  js_strtod_harder : List CharT → D
  neg : D → D

abbrev CharPtr := RangedPtr CharT

variable {D : Type}

def getTextPosition (current : CharPtr) : Nat × Nat :=
  go current.before.reverse 1 1
where
  go : List CharT → Nat → Nat → Nat × Nat
    | [], column, line => (column, line)
    | c :: rest, column, line =>
      if c = '\n' ∨ c = '\r' then
        match rest with
        | c' :: rest' =>
          if c = '\r' ∧ c' = '\n' then go rest' 1 (line + 1) else go (c' :: rest') 1 (line + 1)
        | [] => (1, line + 1)
      else
        go rest (column + 1) line

def error (current : CharPtr) (msg : String) : Option (Token D × CharPtr) :=
  let (column, line) := getTextPosition current
  some (.Error ⟨msg, line, column⟩, current)

def IsJSONWhitespace (c : CharT) : Bool := c = '\t' || c = '\r' || c = '\n' || c = ' '

def isUnescaped (c : CharT) : Bool := !(c = '"' || c = '\\' || c.toNat ≤ 0x1F)

def nonHexAt (current : CharPtr) (k : Nat) : Option Bool :=
  if current.remaining = k then some true
  else do
    let c ← current.get k
    some !(IsAsciiHexDigit c)

def badUnicodeEscape (current : CharPtr) : Option CharPtr := do
  if ← nonHexAt current 0 then
    some current
  else if ← nonHexAt current 1 then
    current.add 1
  else if ← nonHexAt current 2 then
    current.add 2
  else if ← nonHexAt current 3 then
    current.add 3
  else
    none

def readUnicodeEscape (current : CharPtr) : Option ((CharT ⊕ Token D) × CharPtr) := do
  if ← current.passAll [IsAsciiHexDigit, IsAsciiHexDigit, IsAsciiHexDigit, IsAsciiHexDigit] 0 then
    let c0 ← current.get 0
    let c1 ← current.get 1
    let c2 ← current.get 2
    let c3 ← current.get 3
    let c := (AsciiAlphanumericToNumber c0 <<< 12) ||| (AsciiAlphanumericToNumber c1 <<< 8) |||
      (AsciiAlphanumericToNumber c2 <<< 4) ||| AsciiAlphanumericToNumber c3
    let current ← current.add 4
    some (.inl (.ofNat 16 c), current)
  else
    let current ← badUnicodeEscape current
    let (token, current) ← error current "bad Unicode escape"
    some (.inr token, current)

def readEscape (current : CharPtr) : Option ((CharT ⊕ Token D) × CharPtr) := do
  let e ← current.deref
  let current ← current.inc
  if e = '"' then some (.inl '"', current)
  else if e = '/' then some (.inl '/', current)
  else if e = '\\' then some (.inl '\\', current)
  else if e = 'b' then some (.inl '\x08', current)
  else if e = 'f' then some (.inl '\x0c', current)
  else if e = 'n' then some (.inl '\n', current)
  else if e = 'r' then some (.inl '\r', current)
  else if e = 't' then some (.inl '\t', current)
  else if e = 'u' then readUnicodeEscape current
  else
    let current ← current.dec
    let (token, current) ← error current "bad escaped character"
    some (.inr token, current)

-- The slow case of `readString`. Every round reads a unit, so the rest of the text bounds the rounds.
def readEscapedString : Nat → List CharT → CharPtr → CharPtr → Option (Token D × CharPtr)
  | 0, _, _, _ => none
  | rounds + 1, buffer, start, current => do
    let buffer := buffer ++ current.since start
    if current.isEnd then
      error current "unterminated string"
    else
      let c ← current.deref
      let current ← current.inc
      if c = '"' then
        some (.String buffer, current)
      else if c ≠ '\\' then
        let current ← current.dec
        error current "bad character in string literal"
      else if current.isEnd then
        error current "unterminated string"
      else
        match ← readEscape current with
        | (.inr token, current) => some (token, current)
        | (.inl c, start) =>
          let current := start.skipWhile isUnescaped
          if current.isEnd then
            error current "unterminated string"
          else
            readEscapedString rounds (buffer ++ [c]) start current

def readString (current : CharPtr) : Option (Token D × CharPtr) := do
  let start ← current.inc
  if start.isEnd then
    error start "unterminated string literal"
  else
    let current := start.skipWhile isUnescaped
    if current.isEnd then
      readEscapedString (current.remaining + 1) [] start current
    else
      let c ← current.deref
      if c = '"' then
        let str := current.since start
        let current ← current.inc
        some (.String str, current)
      else if c = '\\' then
        readEscapedString (current.remaining + 1) [] start current
      else
        error current "bad control character in string literal"

def DOUBLE_INTEGRAL_PRECISION_LIMIT : Nat := 2 ^ 53

def ParseDecimalNumber (conv : Conversions D) (chars : List CharT) : Option D :=
  if chars = [] then none else (go chars 0).map conv.static_cast
where
  go : List CharT → Nat → Option Nat
    | [], dec => some dec
    | c :: s, dec =>
      if IsAsciiDigit c then
        let next := dec * 10 + (c.toNat - 0x30)
        if next < DOUBLE_INTEGRAL_PRECISION_LIMIT then go s next else none
      else
        none

-- `d < limit`, for the doubles that the loop below can reach.
def isBelow (d : IntegralDouble) (limit : Nat) : Option Nat :=
  match d with
  | .finite n => if n < limit then some n.toNat else none
  | _ => none

def GetFullInteger (conv : Conversions D) (chars : List CharT) : Option D := do
  let d ← go chars (.finite 0)
  match isBelow d DOUBLE_INTEGRAL_PRECISION_LIMIT with
  | some n => some (conv.static_cast n)
  | none => some (conv.js_strtod_harder chars)
where
  go : List CharT → IntegralDouble → Option IntegralDouble
    | [], d => some d
    | c :: s, d =>
      if IsAsciiAlphanumeric c ∧ AsciiAlphanumericToNumber c < 10 then
        go s ((d.mul (.finite 10)).add (.finite (AsciiAlphanumericToNumber c)))
      else
        none

def FullStringToDouble (conv : Conversions D) (chars : List CharT) : D := conv.js_strtod_harder chars

def applySign (conv : Conversions D) (negative : Bool) (d : D) : D := if negative then conv.neg d else d

def readFraction (current : CharPtr) : Option (Option (Token D) × CharPtr) := do
  if current.isEnd then
    some (none, current)
  else
    let c ← current.deref
    if c = '.' then
      let current ← current.inc
      if current.isEnd then
        let (token, current) ← error current "missing digits after decimal point"
        some (some token, current)
      else
        let c ← current.deref
        if !IsAsciiDigit c then
          let (token, current) ← error current "unterminated fractional number"
          some (some token, current)
        else
          let current ← current.inc
          some (none, current.skipWhile IsAsciiDigit)
    else
      some (none, current)

def readExponentDigits (current : CharPtr) : Option (Option (Token D) × CharPtr) := do
  let c ← current.deref
  if !IsAsciiDigit c then
    let (token, current) ← error current "exponent part is missing a number"
    some (some token, current)
  else
    let current ← current.inc
    some (none, current.skipWhile IsAsciiDigit)

def readExponent (current : CharPtr) : Option (Option (Token D) × CharPtr) := do
  if current.isEnd then
    some (none, current)
  else
    let c ← current.deref
    if c = 'e' ∨ c = 'E' then
      let current ← current.inc
      if current.isEnd then
        let (token, current) ← error current "missing digits after exponent indicator"
        some (some token, current)
      else
        let c ← current.deref
        if c = '+' ∨ c = '-' then
          let current ← current.inc
          if current.isEnd then
            let (token, current) ← error current "missing digits after exponent sign"
            some (some token, current)
          else
            readExponentDigits current
        else
          readExponentDigits current
    else
      some (none, current)

def isIntegral (current : CharPtr) : Option Bool :=
  if current.isEnd then some true
  else do
    let c ← current.deref
    some (c ≠ '.' ∧ c ≠ 'e' ∧ c ≠ 'E')

def skipInteger (current : CharPtr) : Option CharPtr := do
  let c ← current.deref
  let current ← current.inc
  some (if c ≠ '0' then current.skipWhile IsAsciiDigit else current)

def parseInteger (conv : Conversions D) (chars : List CharT) : Option D :=
  if chars.length < "9007199254740992".length then ParseDecimalNumber conv chars else GetFullInteger conv chars

def readMagnitude (conv : Conversions D) (negative : Bool) (digitStart : CharPtr)
    : Option (Token D × CharPtr) := do
  let c ← digitStart.deref
  if !IsAsciiDigit c then
    error digitStart "unexpected non-digit"
  else
    let current ← skipInteger digitStart
    if ← isIntegral current then
      let d ← parseInteger conv (current.since digitStart)
      some (.Number (applySign conv negative d), current)
    else
      match ← readFraction current with
      | (some token, current) => some (token, current)
      | (none, current) =>
        match ← readExponent current with
        | (some token, current) => some (token, current)
        | (none, current) =>
          some (.Number (applySign conv negative (FullStringToDouble conv (current.since digitStart))), current)

def readNumber (conv : Conversions D) (current : CharPtr) : Option (Token D × CharPtr) := do
  let c ← current.deref
  if c = '-' then
    let current ← current.inc
    if current.isEnd then
      error current "no number after minus sign"
    else
      readMagnitude conv true current
  else
    readMagnitude conv false current

def readKeyword (rest : List CharT) (token : Token D) (current : CharPtr) : Option (Token D × CharPtr) := do
  if ← current.passAll (rest.map fun c => fun c' => decide (c' = c)) 1 then
    let current ← current.add (rest.length + 1)
    some (token, current)
  else
    error current "unexpected keyword"

def readUnit (token : Token D) (current : CharPtr) : Option (Token D × CharPtr) := do
  let current ← current.inc
  some (token, current)

-- `advance` and its relatives: whitespace is skipped, and the next unit chooses what is read.
def advanceTo (onEnd : String) (cases : List (CharT × (CharPtr → Option (Token D × CharPtr)))) (otherwise : String)
    (current : CharPtr) : Option (Token D × CharPtr) := do
  let current := current.skipWhile IsJSONWhitespace
  if current.isEnd then
    error current onEnd
  else
    let c ← current.deref
    match cases.find? fun x => x.1 = c with
    | some (_, read) => read current
    | none => error current otherwise

def advance (conv : Conversions D) : CharPtr → Option (Token D × CharPtr) :=
  advanceTo "unexpected end of data"
    [('"', readString), ('-', readNumber conv), ('0', readNumber conv), ('1', readNumber conv),
      ('2', readNumber conv), ('3', readNumber conv), ('4', readNumber conv), ('5', readNumber conv),
      ('6', readNumber conv), ('7', readNumber conv), ('8', readNumber conv), ('9', readNumber conv),
      ('t', readKeyword ['r', 'u', 'e'] .True), ('f', readKeyword ['a', 'l', 's', 'e'] .False),
      ('n', readKeyword ['u', 'l', 'l'] .Null), ('[', readUnit .ArrayOpen), (']', readUnit .ArrayClose),
      ('\x7b', readUnit .ObjectOpen), ('\x7d', readUnit .ObjectClose), (',', readUnit .Comma), (':', readUnit .Colon)]
    "unexpected character"

def advanceAfterObjectOpen : CharPtr → Option (Token D × CharPtr) :=
  advanceTo "end of data while reading object contents" [('"', readString), ('\x7d', readUnit .ObjectClose)]
    "expected property name or '\x7d'"

def advanceAfterArrayElement : CharPtr → Option (Token D × CharPtr) :=
  advanceTo "end of data when ',' or ']' was expected" [(',', readUnit .Comma), (']', readUnit .ArrayClose)]
    "expected ',' or ']' after array element"

def advancePropertyName : CharPtr → Option (Token D × CharPtr) :=
  advanceTo "end of data when property name was expected" [('"', readString)]
    "expected double-quoted property name"

def advancePropertyColon : CharPtr → Option (Token D × CharPtr) :=
  advanceTo "end of data after property name when ':' was expected" [(':', readUnit .Colon)]
    "expected ':' after property name in object"

def advanceAfterProperty : CharPtr → Option (Token D × CharPtr) :=
  advanceTo "end of data after property value in object" [(',', readUnit .Comma), ('\x7d', readUnit .ObjectClose)]
    "expected ',' or '\x7d' after property value in object"

inductive ParserState where
  | FinishArrayElement
  | FinishObjectMember
  | JSONValue
deriving DecidableEq, Repr

-- The vector is a pointer into the vectors allocated so far; which of the two kinds it points to shows in the
-- state.
structure StackEntry where
  state : ParserState
  vector : Nat

def StackEntry.ofElements (vector : Nat) : StackEntry := ⟨.FinishArrayElement, vector⟩
def StackEntry.ofProperties (vector : Nat) : StackEntry := ⟨.FinishObjectMember, vector⟩

def StackEntry.elements (entry : StackEntry) : Option Nat :=
  if entry.state = .FinishArrayElement then some entry.vector else none

def StackEntry.properties (entry : StackEntry) : Option Nat :=
  if entry.state = .FinishObjectMember then some entry.vector else none

structure JSONParser (D : Type) where
  current : CharPtr
  stack : List StackEntry := []
  freeElements : List Nat := []
  freeProperties : List Nat := []
  elementVectors : List (List (Value D)) := []
  propertyVectors : List (List (IdValuePair D)) := []

structure Return (D : Type) where
  ok : Bool
  vp : Value D
  exception : Option Report

-- The labels and cases that the automaton jumps between, with the locals that are live there. `afterSwitch` is
-- the end of the outer switch.
inductive Point (D : Type) where
  | FinishObjectMember (value : Value D)
  | JSONMember (token : Token D)
  | FinishArrayElement (value : Value D)
  | JSONValue
  | JSONValueSwitch (token : Token D)
  | afterSwitch (value : Value D)

def errorReturn (parseType : ParseType) (report : Report) : Return D where
  ok := parseType = .AttemptForEval
  vp := .Undefined
  exception := if parseType = .JSONParse then some report else none

def takeVector {α : Type} (free : List Nat) (vectors : List (List α)) : Option (List Nat × List (List α) × Nat) :=
  match free with
  | vector :: rest => if vector < vectors.length then some (rest, vectors.set vector [], vector) else none
  | [] => some ([], vectors ++ [[]], vectors.length)

namespace JSONParser

def newElements (parser : JSONParser D) : Option (JSONParser D × Nat) := do
  let (free, vectors, elements) ← takeVector parser.freeElements parser.elementVectors
  some ({ parser with freeElements := free, elementVectors := vectors }, elements)

def newProperties (parser : JSONParser D) : Option (JSONParser D × Nat) := do
  let (free, vectors, properties) ← takeVector parser.freeProperties parser.propertyVectors
  some ({ parser with freeProperties := free, propertyVectors := vectors }, properties)

def finishObject (parser : JSONParser D) (properties : Nat) : Option (JSONParser D × Value D) := do
  let back ← parser.stack.head?
  let top ← back.properties
  if top = properties then
    let pairs ← parser.propertyVectors[properties]?
    some ({ parser with freeProperties := properties :: parser.freeProperties, stack := parser.stack.tail },
      .Object (pairs.map fun x => (x.id, x.value)))
  else
    none

def finishArray (parser : JSONParser D) (elements : Nat) : Option (JSONParser D × Value D) := do
  let back ← parser.stack.head?
  let top ← back.elements
  if top = elements then
    let values ← parser.elementVectors[elements]?
    some ({ parser with freeElements := elements :: parser.freeElements, stack := parser.stack.tail },
      .Array values)
  else
    none

def setBackValue (parser : JSONParser D) (value : Value D) : Option (JSONParser D × Nat) := do
  let back ← parser.stack.head?
  let properties ← back.properties
  let pairs ← parser.propertyVectors[properties]?
  let last ← pairs.getLast?
  some ({ parser with
    propertyVectors := parser.propertyVectors.set properties (pairs.dropLast ++ [{ last with value := value }]) },
    properties)

def emplaceBack (parser : JSONParser D) (id : List CharT) : Option (JSONParser D) := do
  let back ← parser.stack.head?
  let properties ← back.properties
  let pairs ← parser.propertyVectors[properties]?
  some { parser with propertyVectors := parser.propertyVectors.set properties (pairs ++ [{ id := id }]) }

def appendElement (parser : JSONParser D) (value : Value D) : Option (JSONParser D × Nat) := do
  let back ← parser.stack.head?
  let elements ← back.elements
  let values ← parser.elementVectors[elements]?
  some ({ parser with elementVectors := parser.elementVectors.set elements (values ++ [value]) }, elements)

end JSONParser

abbrev Next (D : Type) := (JSONParser D × Point D) ⊕ Return D

def goto (parser : JSONParser D) (point : Point D) : Option (Next D) := some (.inl (parser, point))

def errorStep (parseType : ParseType) (current : CharPtr) (msg : String) : Option (Next D) := do
  let (column, line) := getTextPosition current
  some (.inr (errorReturn parseType ⟨msg, line, column⟩))

def stepFinishObjectMember (parseType : ParseType) (parser : JSONParser D) (value : Value D) : Option (Next D) := do
  let (parser, properties) ← parser.setBackValue value
  let (token, current) ← advanceAfterProperty (D := D) parser.current
  let parser := { parser with current := current }
  match token with
  | .ObjectClose =>
    let (parser, value) ← parser.finishObject properties
    goto parser (.afterSwitch value)
  | .Comma =>
    let (token, current) ← advancePropertyName (D := D) parser.current
    goto { parser with current := current } (.JSONMember token)
  | .Error report => some (.inr (errorReturn parseType report))
  | _ => errorStep parseType parser.current "expected ',' or '\x7d' after property-value pair in object literal"

def proto : List CharT := ['_', '_', 'p', 'r', 'o', 't', 'o', '_', '_']

def stepJSONMember (parseType : ParseType) (parser : JSONParser D) (token : Token D) : Option (Next D) :=
  match token with
  | .String id => do
    if parseType = .AttemptForEval ∧ id = proto then
      some (.inr ⟨true, .Undefined, none⟩)
    else
      let parser ← parser.emplaceBack id
      let (token, current) ← advancePropertyColon (D := D) parser.current
      let parser := { parser with current := current }
      match token with
      | .Colon => goto parser .JSONValue
      | .Error report => some (.inr (errorReturn parseType report))
      | _ => none
  | .Error report => some (.inr (errorReturn parseType report))
  | _ => errorStep parseType parser.current "property names must be double-quoted strings"

def stepFinishArrayElement (parseType : ParseType) (parser : JSONParser D) (value : Value D) : Option (Next D) := do
  let (parser, elements) ← parser.appendElement value
  let (token, current) ← advanceAfterArrayElement (D := D) parser.current
  let parser := { parser with current := current }
  match token with
  | .Comma => goto parser .JSONValue
  | .ArrayClose =>
    let (parser, value) ← parser.finishArray elements
    goto parser (.afterSwitch value)
  | .Error report => some (.inr (errorReturn parseType report))
  | _ => none

def stepArrayOpen (conv : Conversions D) (parser : JSONParser D) : Option (Next D) := do
  let (parser, elements) ← parser.newElements
  let parser := { parser with stack := .ofElements elements :: parser.stack }
  let (token, current) ← advance conv parser.current
  let parser := { parser with current := current }
  match token with
  | .ArrayClose =>
    let (parser, value) ← parser.finishArray elements
    goto parser (.afterSwitch value)
  | token => goto parser (.JSONValueSwitch token)

def stepObjectOpen (parser : JSONParser D) : Option (Next D) := do
  let (parser, properties) ← parser.newProperties
  let parser := { parser with stack := .ofProperties properties :: parser.stack }
  let (token, current) ← advanceAfterObjectOpen (D := D) parser.current
  let parser := { parser with current := current }
  match token with
  | .ObjectClose =>
    let (parser, value) ← parser.finishObject properties
    goto parser (.afterSwitch value)
  | token => goto parser (.JSONMember token)

def stepUnexpected (parseType : ParseType) (parser : JSONParser D) : Option (Next D) := do
  let current ← parser.current.dec
  errorStep parseType current "unexpected character"

def stepJSONValueSwitch (conv : Conversions D) (parseType : ParseType) (parser : JSONParser D)
    : Token D → Option (Next D)
  | .String s => goto parser (.afterSwitch (.String s))
  | .Number d => goto parser (.afterSwitch (.Number d))
  | .True => goto parser (.afterSwitch (.Boolean true))
  | .False => goto parser (.afterSwitch (.Boolean false))
  | .Null => goto parser (.afterSwitch .Null)
  | .ArrayOpen => stepArrayOpen conv parser
  | .ObjectOpen => stepObjectOpen parser
  | .ArrayClose => stepUnexpected parseType parser
  | .ObjectClose => stepUnexpected parseType parser
  | .Colon => stepUnexpected parseType parser
  | .Comma => stepUnexpected parseType parser
  | .Error report => some (.inr (errorReturn parseType report))

def stepAfterSwitch (parseType : ParseType) (parser : JSONParser D) (value : Value D) : Option (Next D) :=
  match parser.stack with
  | [] =>
    let current := parser.current.skipWhile IsJSONWhitespace
    if current.isEnd then
      some (.inr ⟨true, value, none⟩)
    else
      errorStep parseType current "unexpected non-whitespace character after JSON data"
  | entry :: _ =>
    match entry.state with
    | .FinishObjectMember => goto parser (.FinishObjectMember value)
    | .FinishArrayElement => goto parser (.FinishArrayElement value)
    | .JSONValue => goto parser .JSONValue

def step (conv : Conversions D) (parseType : ParseType) : JSONParser D × Point D → Option (Next D)
  | (parser, .FinishObjectMember value) => stepFinishObjectMember parseType parser value
  | (parser, .JSONMember token) => stepJSONMember parseType parser token
  | (parser, .FinishArrayElement value) => stepFinishArrayElement parseType parser value
  | (parser, .JSONValue) => do
    let (token, current) ← advance conv parser.current
    goto { parser with current := current } (.JSONValueSwitch token)
  | (parser, .JSONValueSwitch token) => stepJSONValueSwitch conv parseType parser token
  | (parser, .afterSwitch value) => stepAfterSwitch parseType parser value

def parse (conv : Conversions D) (parseType : ParseType) (rounds : Nat) (text : List CharT) : Option (Return D) :=
  Loop.runUntil (step conv parseType) rounds ({ current := .ofList text }, .JSONValue)

end JSON

end SpiderMonkey
