import SpiderMonkey.Builtin.Impl.JSON
import SpiderMonkey.Lib.Overwrite

/-!
This module contains the functions behind `encodeURI`, `decodeURI`, `escape` and `unescape`. Accesses outside of a
string or a buffer and assertions that fail end in `stuck`.
-/

namespace SpiderMonkey.URI

open JSON (IsLeadSurrogate IsTrailSurrogate JSLinearString)
open CharacterEncoding (NonBMPMin NonBMPMax LeadSurrogateMin TrailSurrogateMin LeadSurrogate TrailSurrogate
  sequenceLength Utf8ToOneUcs4CharImpl)
open Overwrite

inductive Stop where
  | Failure
  | BadUri
  | stuck
deriving DecidableEq, Repr

def MAX_LENGTH : Nat := 2 ^ 30 - 2

def js_isUriReservedPlusPound (c : CharT) : Bool :=
  [35, 36, 38, 43, 44, 47, 58, 59, 61, 63, 64].contains c.toNat

def js_isUriUnescaped (c : CharT) : Bool :=
  IsAsciiAlphanumeric c || [33, 39, 40, 41, 42, 45, 46, 95, 126].contains c.toNat

def HexDigits : List CharT :=
  ['0', '1', '2', '3', '4', '5', '6', '7', '8', '9', 'A', 'B', 'C', 'D', 'E', 'F']

def UTF16Decode (lead trail : CharT) : Nat :=
  (lead.toNat <<< 10) + trail.toNat + NonBMPMin - (LeadSurrogateMin <<< 10) - TrailSurrogateMin

def utf8LengthFrom : Nat → Nat → Nat → Nat
  | 0, _, utf8Length => utf8Length
  | rounds + 1, a, utf8Length => if a ≠ 0 then utf8LengthFrom rounds (a >>> 5) (utf8Length + 1) else utf8Length

def trailingOctets : Nat → Nat → List (BitVec 8) → Nat × List (BitVec 8)
  | 0, ucs4Char, octets => (ucs4Char, octets)
  | i + 1, ucs4Char, octets => trailingOctets i (ucs4Char >>> 6) (.ofNat 8 ((ucs4Char &&& 0x3F) ||| 0x80) :: octets)

def OneUcs4ToUtf8Char (ucs4Char : Nat) : List (BitVec 8) :=
  if ucs4Char < 0x80 then [.ofNat 8 ucs4Char]
  else
    let utf8Length := utf8LengthFrom 7 (ucs4Char >>> 11) 2
    let (ucs4Char, octets) := trailingOctets (utf8Length - 1) ucs4Char []
    .ofNat 8 (0x100 - (1 <<< (8 - utf8Length)) + ucs4Char) :: octets

def read (chars : List CharT) (k : Nat) : Except Stop CharT :=
  match chars[k]? with
  | some c => return c
  | none => throw .stuck

section

-- Whether there is memory for so many units, in a buffer or a string.
variable (granted : Nat → Bool)

def reserve (n : Nat) : Except Stop Unit := if granted n then return () else throw .Failure

def append (sb chars : List CharT) : Except Stop (List CharT) := do
  reserve granted (sb.length + chars.length)
  return sb ++ chars

def appendRange (reserves : Bool) (chars sb : List CharT) (start stop : Nat) : Except Stop (List CharT) :=
  if stop < start ∨ chars.length < stop then throw .stuck
  else if start < stop then do
    if reserves && start = 0 then reserve granted chars.length
    append granted sb (slice chars start (stop - start))
  else return sb

def TransferBufferToString (sb str : List CharT) : Except Stop (List CharT) :=
  if sb.isEmpty then return str
  else if MAX_LENGTH < sb.length then throw .Failure
  else do
    reserve granted sb.length
    return sb

def transferRest (reserves : Bool) (chars : List CharT) (built : List CharT × Nat) : Except Stop (List CharT) := do
  let (sb, startAppend) := built
  let rest := if 0 < startAppend then appendRange granted reserves chars sb startAppend chars.length else return sb
  let sb ← rest
  TransferBufferToString granted sb chars

def appendEncoded (sb : List CharT) (c : BitVec 8) : Except Stop (List CharT) :=
  append granted sb ['%', HexDigits.getD (c >>> 4).toNat 0, HexDigits.getD (c &&& 0xF).toNat 0]

def readCodePoint (chars : List CharT) (k : Nat) (c : CharT) : Except Stop (Nat × Nat) :=
  if IsTrailSurrogate c then throw .BadUri
  else if !IsLeadSurrogate c then return (c.toNat, k)
  else if k + 1 = chars.length then throw .BadUri
  else do
    let c2 ← read chars (k + 1)
    if !IsTrailSurrogate c2 then throw .BadUri else return (UTF16Decode c c2, k + 1)

-- What is done with a unit that is not left unescaped. The index that is returned is that of the last unit read.
def encodeUnit (isLatin1 : Bool) (chars sb : List CharT) (k : Nat) (c : CharT)
    : Except Stop (List CharT × Nat) := do
  if isLatin1 then
    if c.toNat < 0x80 then
      return (← appendEncoded granted sb (c.setWidth 8), k)
    else
      let sb ← appendEncoded granted sb (0xC0 ||| (c >>> 6).setWidth 8)
      let sb ← appendEncoded granted sb (0x80 ||| (c &&& 0x3F).setWidth 8)
      return (sb, k)
  else
    let (v, k) ← readCodePoint chars k c
    let sb ← (OneUcs4ToUtf8Char v).foldlM (appendEncoded granted) sb
    return (sb, k)

def encodeLoop (isLatin1 : Bool) (unescapedSet : Option (CharT → Bool)) (chars : List CharT)
    : Nat → List CharT → Nat → Nat → Except Stop (List CharT × Nat)
  | 0, _, _, _ => throw .stuck
  | rounds + 1, sb, startAppend, k =>
    if k < chars.length then do
      let c ← read chars k
      if c.toNat < 128 && (js_isUriUnescaped c || unescapedSet.any (· c)) then
        encodeLoop isLatin1 unescapedSet chars rounds sb startAppend (k + 1)
      else
        let sb ← appendRange granted true chars sb startAppend k
        let (sb, k) ← encodeUnit granted isLatin1 chars sb k c
        encodeLoop isLatin1 unescapedSet chars rounds sb (k + 1) (k + 1)
    else return (sb, startAppend)

def Encode (str : JSLinearString) (unescapedSet : Option (CharT → Bool)) : Except Stop (List CharT) :=
  let chars := str.units
  if chars.length = 0 then return []
  else do
    let built ← encodeLoop granted (!str.hasTwoByteChars) unescapedSet chars (chars.length + 1) [] 0 0
    transferRest granted true chars built

def readOctet (chars : List CharT) (k : Nat) : Except Stop (BitVec 8) := do
  let c ← read chars (k + 1)
  let d ← read chars (k + 2)
  if !IsAsciiHexDigit c || !IsAsciiHexDigit d then throw .BadUri
  else return .ofNat 8 (AsciiAlphanumericToNumber c * 16 + AsciiAlphanumericToNumber d)

def readContinuations (chars : List CharT) : Nat → Nat → Except Stop (List (BitVec 8) × Nat)
  | 0, k => return ([], k)
  | j + 1, k => do
    let c ← read chars (k + 1)
    if c ≠ '%' then throw .BadUri
    else
      let B ← readOctet chars (k + 1)
      if B &&& 0xC0 ≠ 0x80 then throw .BadUri
      else
        let (octets, k) ← readContinuations chars j (k + 3)
        return (B :: octets, k)

-- What is done at a `%`: the buffer, where the units start that are to be copied, and the last index that was read.
def decodeEscape (reservedSet : Option (CharT → Bool)) (chars sb : List CharT) (startAppend start : Nat)
    : Except Stop (List CharT × Nat × Nat) := do
  if chars.length ≤ start + 2 then throw .BadUri
  else
    let B ← readOctet chars start
    let k := start + 2
    if B.toNat < 128 then
      if reservedSet.any (· (B.setWidth 16)) then return (sb, startAppend, k)
      else
        let sb ← appendRange granted false chars sb startAppend start
        let sb ← append granted sb [B.setWidth 16]
        return (sb, k + 1, k)
    else
      let n := sequenceLength B
      if n = 1 ∨ 4 < n then throw .BadUri
      else if chars.length ≤ k + 3 * (n - 1) then throw .BadUri
      else
        let (octets, k) ← readContinuations chars (n - 1) k
        let sb ← appendRange granted false chars sb startAppend start
        let v := Utf8ToOneUcs4CharImpl .UTF8Chars (B :: octets)
        if NonBMPMin ≤ v then
          if NonBMPMax < v then throw .BadUri
          else
            let sb ← append granted sb [LeadSurrogate v]
            let sb ← append granted sb [TrailSurrogate v]
            return (sb, k + 1, k)
        else
          let sb ← append granted sb [.ofNat 16 v]
          return (sb, k + 1, k)

def decodeLoop (reservedSet : Option (CharT → Bool)) (chars : List CharT)
    : Nat → List CharT → Nat → Nat → Except Stop (List CharT × Nat)
  | 0, _, _, _ => throw .stuck
  | rounds + 1, sb, startAppend, k =>
    if k < chars.length then do
      let c ← read chars k
      if c = '%' then
        let (sb, startAppend, k) ← decodeEscape granted reservedSet chars sb startAppend k
        decodeLoop reservedSet chars rounds sb startAppend (k + 1)
      else
        decodeLoop reservedSet chars rounds sb startAppend (k + 1)
    else return (sb, startAppend)

def Decode (chars : List CharT) (reservedSet : Option (CharT → Bool)) : Except Stop (List CharT) :=
  if chars.length = 0 then return []
  else do
    let built ← decodeLoop granted reservedSet chars (chars.length + 1) [] 0 0
    transferRest granted false chars built

end

def shouldPassThrough (ch : CharT) : Bool :=
  IsAsciiAlphanumeric ch || [42, 43, 45, 46, 47, 64, 95].contains ch.toNat

def escapedLength : List CharT → Nat → Except Stop Nat
  | [], newLength => return newLength
  | ch :: chars, newLength =>
    if ch.toNat < 128 && shouldPassThrough ch then escapedLength chars newLength
    else
      let newLength := newLength + if ch.toNat < 256 then 2 else 5
      if MAX_LENGTH < newLength then throw .Failure else escapedLength chars newLength

def digit (n : CharT) : CharT := HexDigits.getD n.toNat 0

def escapedUnit (ch : CharT) : List CharT :=
  if ch.toNat < 128 && shouldPassThrough ch then [ch]
  else if ch.toNat < 256 then ['%', digit (ch >>> 4), digit (ch &&& 0xF)]
  else
    ['%', 'u', digit (ch >>> 12), digit ((ch &&& 0xF00) >>> 8), digit ((ch &&& 0xF0) >>> 4), digit (ch &&& 0xF)]

def writeEscaped (newLength : Nat) : List CharT → List CharT → Except Stop (List CharT)
  | [], rawNewChars => return rawNewChars
  | ch :: chars, rawNewChars =>
    if newLength < rawNewChars.length + (escapedUnit ch).length then throw .stuck
    else writeEscaped newLength chars (rawNewChars ++ escapedUnit ch)

def Escape (granted : Nat → Bool) (chars : List CharT) : Except Stop (List CharT × Nat) := do
  let newLength ← escapedLength chars chars.length
  if newLength = chars.length then return ([], newLength)
  else
    reserve granted newLength
    let newChars ← writeEscaped newLength chars []
    if newChars.length ≠ newLength then throw .stuck else return (newChars, newLength)

def str_escape (granted : Nat → Bool) (str : List CharT) : Except Stop (List CharT) := do
  let (newChars, newLength) ← Escape granted str
  if newLength = str.length then return str
  else
    reserve granted newLength
    return newChars

def Unhex (chars : List CharT) : Nat → Nat → CharT → Except Stop (Option CharT)
  | 0, _, unhex => return some unhex
  | digits + 1, k, unhex => do
    let c ← read chars k
    if !IsAsciiHexDigit c then return none
    else Unhex chars digits (k + 1) ((unhex <<< 4) + .ofNat 16 (AsciiAlphanumericToNumber c))

def unescapeAt (chars : List CharT) (k : Nat) : Except Stop (Option (CharT × Nat)) := do
  let isLong := if k + 6 ≤ chars.length then (· == unit 'u') <$> read chars (k + 1) else return false
  if ← isLong then return (← Unhex chars 4 (k + 2) 0).map (·, 5)
  else if k + 3 ≤ chars.length then return (← Unhex chars 2 (k + 1) 0).map (·, 2)
  else return none

def unescapeLoop (granted : Nat → Bool) (chars : List CharT)
    : Nat → Option (List CharT) → Nat → Except Stop (Option (List CharT))
  | 0, _, _ => throw .stuck
  | rounds + 1, sb, k =>
    if k < chars.length then do
      let c ← read chars k
      let escaped := if c = '%' then unescapeAt chars k else return none
      let escaped ← escaped
      let (c, skipped) := escaped.getD (c, 0)
      let building := if escaped.isSome && sb.isNone then do
          reserve granted chars.length
          return some (chars.take k)
        else return sb
      let sb ← building
      let sb ← sb.mapM (append granted · [c])
      unescapeLoop granted chars rounds sb (k + skipped + 1)
    else return sb

def str_unescape (granted : Nat → Bool) (str : List CharT) : Except Stop (List CharT) := do
  let sb ← unescapeLoop granted str (str.length + 1) none 0
  TransferBufferToString granted (sb.getD []) str

end SpiderMonkey.URI
