import SpiderMonkey.Vm.Impl.JSONParser
import SpiderMonkey.Vm.Impl.CharacterEncoding

/-!
This module contains the quoting of strings in JSON text. Writing beyond the reserved units and indexing a table
outside its bounds yield `none`.
-/

namespace SpiderMonkey.JSON

inductive JSLinearString where
  | latin1 (chars : List (BitVec 8))
  | twoByte (chars : List (BitVec 16))
deriving DecidableEq, Repr

namespace JSLinearString

def units : JSLinearString → List CharT
  | latin1 chars => chars.map (·.setWidth 16)
  | twoByte chars => chars

def length : JSLinearString → Nat
  | latin1 chars => chars.length
  | twoByte chars => chars.length

def hasTwoByteChars : JSLinearString → Bool
  | latin1 _ => false
  | twoByte _ => true

end JSLinearString

-- A Latin-1 buffer holds units below 256.
structure StringBuffer where
  isUnderlyingBufferLatin1 : Bool
  chars : List CharT
deriving DecidableEq, Repr

def escapeLookup : List Char :=
  List.replicate 8 'u' ++ ['b', 't', 'n', 'u', 'f', 'r'] ++ List.replicate 18 'u' ++
    ['\x00', '\x00', '"'] ++ List.replicate 57 '\x00' ++ ['\\']

def ToLowerHex (u : Nat) : Option CharT :=
  let digits : List CharT := ['0', '1', '2', '3', '4', '5', '6', '7', '8', '9', 'a', 'b', 'c', 'd', 'e', 'f']
  digits[u]?

def IsLeadSurrogate (c : CharT) : Bool := 0xD800 ≤ c.toNat && c.toNat ≤ 0xDBFF
def IsTrailSurrogate (c : CharT) : Bool := 0xDC00 ≤ c.toNat && c.toNat ≤ 0xDFFF

structure Dst where
  isLatin1 : Bool
  room : Nat
  written : List CharT

def Dst.write (dst : Dst) (c : CharT) : Option Dst :=
  if dst.written.length < dst.room then
    let c := if dst.isLatin1 then (c.setWidth 8).setWidth 16 else c
    some { dst with written := dst.written ++ [c] }
  else
    none

def Dst.writeAll (dst : Dst) (cs : List CharT) : Option Dst := cs.foldlM Dst.write dst

def writeLoneSurrogate (dst : Dst) (c : CharT) : Option Dst := do
  let h3 ← ToLowerHex (c.toNat >>> 12)
  let h2 ← ToLowerHex ((c.toNat >>> 8) &&& 0xF)
  let h1 ← ToLowerHex ((c.toNat >>> 4) &&& 0xF)
  let h0 ← ToLowerHex (c.toNat &&& 0xF)
  dst.writeAll ['\\', 'u', h3, h2, h1, h0]

def writeLatin1 (dst : Dst) (c : CharT) : Option Dst := do
  let escaped := escapeLookup.getD c.toNat '\x00'
  if escaped = '\x00' then
    dst.write c
  else
    let dst ← dst.writeAll ['\\', escaped]
    if escaped = 'u' then
      let x := c.toNat >>> 4
      if x < 10 then
        let h0 ← ToLowerHex (c.toNat &&& 0xF)
        dst.writeAll ['0', '0', .ofNat 16 (0x30 + x), h0]
      else
        none
    else
      some dst

def quoteUnits : List CharT → Dst → Option Dst
  | [], dst => some dst
  | c :: src, dst => do
    if c.toNat < 256 then
      quoteUnits src (← writeLatin1 dst c)
    else if !CharacterEncoding.IsSurrogate c.toNat then
      quoteUnits src (← dst.write c)
    else
      match src with
      | d :: src =>
        if IsLeadSurrogate c && IsTrailSurrogate d then
          quoteUnits src (← dst.writeAll [c, d])
        else
          quoteUnits (d :: src) (← writeLoneSurrogate dst c)
      | [] => quoteUnits [] (← writeLoneSurrogate dst c)

def InfallibleQuote (src : List CharT) (dst : Dst) : Option Dst := do
  let dst ← dst.write '"'
  let dst ← quoteUnits src dst
  dst.write '"'

def Quote (sizeMax : Nat) (sb : StringBuffer) (linear : JSLinearString) : Option (Option StringBuffer) :=
  let isLatin1 := sb.isUnderlyingBufferLatin1 && !linear.hasTwoByteChars
  let reservedLen := linear.length * 6 + 2
  if sizeMax < reservedLen then
    some none
  else do
    let dst ← InfallibleQuote linear.units ⟨isLatin1, reservedLen, []⟩
    some (some ⟨isLatin1, sb.chars ++ dst.written⟩)

end SpiderMonkey.JSON
