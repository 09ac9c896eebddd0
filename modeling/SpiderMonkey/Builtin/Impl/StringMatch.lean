import SpiderMonkey.Builtin.Impl.JSON

/-!
This module contains the searches for a string in another one. Units are read from lists, and `none` is an access
outside of a string or a table, or a loop that does not end.
-/

namespace SpiderMonkey.StringSearch

open JSON (JSLinearString)

def sBMHCharSetSize : Nat := 256

def sBMHPatLenMax : Nat := 255

def sBMHBadPattern : Int := -2

-- The second loop of `BoyerMooreHorspool`. There is no table for a pattern that is not Latin-1.
def fillSkip (patLast : Nat) : List CharT → Nat → List (BitVec 8) → Option (List (BitVec 8))
  | [], _, skip => some skip
  | c :: pat, i, skip =>
    if c.toNat ≥ sBMHCharSetSize then none
    else fillSkip patLast pat (i + 1) (skip.set c.toNat (.ofNat 8 (patLast - i)))

def compareBackwards (text pat : List CharT) (i : Nat) : Nat → Option (Option Nat)
  | 0 => do
    let t ← text[i]?
    let p ← pat[0]?
    return if t ≠ p then none else some i
  | j + 1 => do
    let t ← text[i]?
    let p ← pat[j + 1]?
    if t ≠ p then return none else compareBackwards text pat (i - 1) j

def horspoolLoop (skip : List (BitVec 8)) (text pat : List CharT) : Nat → Nat → Option Int
  | 0, _ => none
  | rounds + 1, k =>
    if k < text.length then do
      match ← compareBackwards text pat k (pat.length - 1) with
      | some i => return i
      | none =>
        let c ← text[k]?
        let next := if c.toNat ≥ sBMHCharSetSize then some pat.length else BitVec.toNat <$> skip[c.toNat]?
        horspoolLoop skip text pat rounds (k + (← next))
    else return -1

def BoyerMooreHorspool (text pat : List CharT) : Option Int :=
  if 0 < pat.length ∧ pat.length ≤ sBMHPatLenMax then
    let patLast := pat.length - 1
    match fillSkip patLast (pat.take patLast) 0 (List.replicate sBMHCharSetSize (.ofNat 8 pat.length)) with
    | none => return sBMHBadPattern
    | some skip => horspoolLoop skip text pat (text.length + 1) patLast
  else none

def testUnits (text : List CharT) (pat : CharT) : Nat → Nat → Option (Option Nat)
  | 0, _ => return none
  | count + 1, t => do
    let c ← text[t]?
    if c = pat then return some t else testUnits text pat count (t + 1)

def unrolledLoop (text : List CharT) (pat : CharT) (textend : Nat) : Nat → Nat → Option (Option Nat)
  | 0, _ => none
  | rounds + 1, t =>
    if textend ≠ t then do
      match ← testUnits text pat 8 t with
      | some t => return some t
      | none => unrolledLoop text pat textend rounds (t + 8)
    else return none

-- The switch tests 8 units when there is a multiple of 8 to test.
def FirstCharMatcherUnrolled (text : List CharT) (i n : Nat) (pat : CharT) : Option (Option Nat) := do
  let first := if n % 8 = 0 then 8 else n % 8
  match ← testUnits text pat first i with
  | some t => return some t
  | none => unrolledLoop text pat (i + n) (n + 1) (i + first)

def memchr (text : List CharT) (i n : Nat) (pat : CharT) : Option (Option Nat) :=
  if i + n ≤ text.length then return (((text.drop i).take n).idxOf? pat).map (i + ·) else none

def manualCmp (text pat : List CharT) : Nat → Nat → Nat → Option Bool
  | 0, _, _ => return true
  | count + 1, p, t => do
    let a ← pat[p]?
    let b ← text[t]?
    if a ≠ b then return false else manualCmp text pat count (p + 1) (t + 1)

def bytes (isLatin1 : Bool) (units : List CharT) : List (BitVec 8) :=
  units.flatMap fun (c : CharT) => if isLatin1 then [c.setWidth 8] else [c.setWidth 8, (c >>> 8).setWidth 8]

def memcmp (p t : List (BitVec 8)) (extent : Nat) : Option Bool :=
  if extent ≤ p.length ∧ extent ≤ t.length then return p.take extent == t.take extent else none

inductive InnerMatch where
  | MemCmp
  | ManualCmp

def InnerMatch.match_ (isLatin1 : Bool) (text pat : List CharT) (i : Nat) : InnerMatch → Option Bool
  | MemCmp =>
    let extent := (pat.length - 1) * (if isLatin1 then 1 else 2)
    memcmp (bytes isLatin1 (pat.drop 1)) (bytes isLatin1 (text.drop (i + 1))) extent
  | ManualCmp => manualCmp text pat (pat.length - 1) 1 (i + 1)

def matcherLoop (inner : InnerMatch) (textIsLatin1 : Bool) (text pat : List CharT) (p0 : CharT) (n : Nat)
    : Nat → Nat → Option Int
  | 0, _ => none
  | rounds + 1, i =>
    if i < n then do
      let pos := if textIsLatin1 then memchr text i (n - i) p0 else FirstCharMatcherUnrolled text i (n - i) p0
      match ← pos with
      | none => return -1
      | some i =>
        if ← inner.match_ textIsLatin1 text pat i then return i
        else matcherLoop inner textIsLatin1 text pat p0 n rounds (i + 1)
    else return -1

def Matcher (inner : InnerMatch) (textIsLatin1 patIsLatin1 : Bool) (text pat : List CharT) : Option Int := do
  let p0 ← pat[0]?
  if textIsLatin1 && !patIsLatin1 && p0.toNat > 0xFF then return -1
  else
    let n := text.length - pat.length + 1
    matcherLoop inner textIsLatin1 text pat p0 n (n + 1) 0

-- The template; `isI386` is whether the code for `__i386__` is built.
def StringMatchChars (isI386 textIsLatin1 patIsLatin1 : Bool) (text pat : List CharT) : Option Int :=
  let textLen := text.length
  let patLen := pat.length
  if patLen = 0 then return 0
  else if textLen < patLen then return -1
  else if isI386 && patLen == 1 then do
    let p0 ← pat[0]?
    match ← testUnits text p0 textLen 0 with
    | some c => return c
    | none => return -1
  else do
    let index := if textLen ≥ 512 ∧ patLen ≥ 11 ∧ patLen ≤ sBMHPatLenMax then BoyerMooreHorspool text pat
      else return sBMHBadPattern
    let index ← index
    if index ≠ sBMHBadPattern then return index
    else if patLen > 128 && textIsLatin1 == patIsLatin1 then Matcher .MemCmp textIsLatin1 patIsLatin1 text pat
    else Matcher .ManualCmp textIsLatin1 patIsLatin1 text pat

def StringMatch (isI386 : Bool) (text pat : JSLinearString) (start : Nat) : Option Int :=
  if start ≤ text.units.length then do
    let match_ ← StringMatchChars isI386 (!text.hasTwoByteChars) (!pat.hasTwoByteChars) (text.units.drop start) pat.units
    return if match_ = -1 then -1 else start + match_
  else none

inductive JSString where
  | linear (str : JSLinearString)
  | rope (left right : JSString)

def JSString.units : JSString → List CharT
  | linear str => str.units
  | rope left right => left.units ++ right.units

structure JSRope where
  left : JSString
  right : JSString
  hasLatin1Chars : Bool
  lt_of_hasLatin1Chars : hasLatin1Chars = true → ∀ c ∈ left.units ++ right.units, c.toNat < 256

namespace JSRope

def units (text : JSRope) : List CharT := text.left.units ++ text.right.units

def ensureLinear (text : JSRope) : JSLinearString :=
  if text.hasLatin1Chars then .latin1 (text.units.map (·.setWidth 8)) else .twoByte text.units

end JSRope

-- Whether there is memory for one more node on the stack, one more segment, and the linear string.
structure Memory where
  stack : Nat → Bool
  strings : Nat → Bool
  linear : Bool

def settle (mem : Memory) (stack : List JSString) : JSString → Option (List JSString × JSLinearString)
  | .linear str => some (stack, str)
  | .rope left right => if mem.stack stack.length then settle mem (right :: stack) left else none

inductive Segments where
  | outOfMemory
  | needsLinear
  | strings (strings : List JSLinearString)

def segments (mem : Memory) (textIsLatin1 : Bool)
    : Nat → List JSString → Option JSLinearString → List JSLinearString → Segments
  | _, _, none, strings => .strings strings
  | 0, _, some _, _ => .needsLinear
  | threshold + 1, stack, some front, strings =>
    if (!front.hasTwoByteChars) ≠ textIsLatin1 ∨ mem.strings strings.length = false then .needsLinear
    else match stack with
      | [] => segments mem textIsLatin1 threshold [] none (strings ++ [front])
      | top :: stack => match settle mem stack top with
        | none => .outOfMemory
        | some (stack, cur) => segments mem textIsLatin1 threshold stack (some cur) (strings ++ [front])

inductive Follow where
  | matched
  | differs
  | textEnds

def follow (pat : List CharT) : List CharT → List JSLinearString → Follow
  | c :: tt, inner => match pat with
    | [] => .matched
    | p :: pat => if p ≠ c then .differs else follow pat tt inner
  | [], inner => match pat, inner with
    | [], _ => .matched
    | _ :: _, [] => .textEnds
    | p :: pat, next :: inner => follow (p :: pat) next.units inner
termination_by tt inner => (inner.length, tt.length)

inductive Across where
  | found (index : Nat)
  | notFound
  | textEnds

def matchAcross (len : Nat) (p0 : CharT) (p1 : List CharT) (inner : List JSLinearString) : List CharT → Across
  | [] => .notFound
  | c :: t =>
    if c ≠ p0 then matchAcross len p0 p1 inner t
    else match follow p1 t inner with
      | .matched => .found (len - t.length - 1)
      | .textEnds => .textEnds
      | .differs => matchAcross len p0 p1 inner t

def RopeMatchImpl (isI386 textIsLatin1 patIsLatin1 : Bool) (pat : List CharT) : List JSLinearString → Nat → Option Int
  | [], _ => return -1
  | outer :: strings, pos => do
    let chars := outer.units
    let len := chars.length
    let matchResult ← StringMatchChars isI386 textIsLatin1 patIsLatin1 chars pat
    if matchResult ≠ -1 then return pos + matchResult
    else
      let text := chars.drop (if pat.length > len then 0 else len - pat.length + 1)
      let p0 ← pat[0]?
      match matchAcross len p0 (pat.drop 1) strings text with
      | .found index => return pos + index
      | .textEnds => return -1
      | .notFound => RopeMatchImpl isI386 textIsLatin1 patIsLatin1 pat strings (pos + len)

def sRopeMatchThresholdRatioLog2 : Nat := 4

-- There is no match in the result without memory.
def RopeMatch (isI386 : Bool) (mem : Memory) (text : JSRope) (pat : JSLinearString) : Option (Option Int) :=
  if pat.units.length = 0 then return some 0
  else if text.units.length < pat.units.length then return some (-1)
  else
    let threshold := text.units.length >>> sRopeMatchThresholdRatioLog2
    let collected : Segments := match settle mem [] (.rope text.left text.right) with
      | none => .outOfMemory
      | some (stack, cur) => segments mem text.hasLatin1Chars threshold stack (some cur) []
    match collected with
    | .outOfMemory => return none
    | .needsLinear => if mem.linear then some <$> StringMatch isI386 text.ensureLinear pat 0 else return none
    | .strings strings => some <$> RopeMatchImpl isI386 text.hasLatin1Chars (!pat.hasTwoByteChars) pat.units strings 0

def lastIndexFrom (text pat : List CharT) (p0 : CharT) (t : Nat) : Option Int := do
  let c ← text[t]?
  let matches_ := if c = p0 then manualCmp text pat (pat.length - 1) 1 (t + 1) else return false
  if ← matches_ then return t
  else match t with
    | 0 => return -1
    | t + 1 => lastIndexFrom text pat p0 t

def LastIndexOfImpl (text pat : List CharT) (start : Nat) : Option Int := do
  if pat.length ≤ text.length ∧ start ≤ text.length - pat.length then
    let p0 ← pat[0]?
    lastIndexFrom text pat p0 start
  else none

end SpiderMonkey.StringSearch
