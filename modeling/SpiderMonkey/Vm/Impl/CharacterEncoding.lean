import Mathlib.Data.Int.NatAbs

/-!
This module contains the inflation of UTF-8 and WTF-8 to Latin-1 and two-byte characters: a pass that counts
the units and one that writes them.
-/

namespace SpiderMonkey.CharacterEncoding

inductive InputChars where
  | UTF8Chars
  | WTF8Chars
deriving DecidableEq, Repr

inductive CharT where
  | Latin1Char
  | char16_t
deriving DecidableEq, Repr

def CharT.width : CharT → Nat
  | Latin1Char => 8
  | char16_t => 16

inductive OnUTF8Error where
  | InsertReplacementCharacter
  | InsertQuestionMark
  | Throw
  | Crash
deriving DecidableEq, Repr

inductive Report where
  | ReportInvalidCharacter (offset : Nat)
  | ReportBufferTooSmall
  | ReportTooBigCharacter (v : Nat)
  | ReportOutOfMemory
deriving DecidableEq, Repr

def NonBMPMin : Nat := 0x10000
def NonBMPMax : Nat := 0x10FFFF
def LeadSurrogateMin : Nat := 0xD800
def TrailSurrogateMin : Nat := 0xDC00
def TrailSurrogateMax : Nat := 0xDFFF
def REPLACEMENT_CHARACTER : BitVec 16 := 0xFFFD
def INVALID_UTF8 : Nat := 0xFFFFFFFF

def IsSurrogate (codePoint : Nat) : Bool := LeadSurrogateMin ≤ codePoint && codePoint ≤ TrailSurrogateMax

def LeadSurrogate (codePoint : Nat) : BitVec 16 :=
  .ofNat 16 ((codePoint >>> 10) + (LeadSurrogateMin - (NonBMPMin >>> 10)))

def TrailSurrogate (codePoint : Nat) : BitVec 16 := .ofNat 16 ((codePoint &&& 0x3FF) ||| TrailSurrogateMin)

def minucs4Table : List Nat := [0x80, 0x800, NonBMPMin]

def Utf8ToOneUcs4CharImpl (kind : InputChars) (utf8Buffer : List (BitVec 8)) : Nat :=
  match utf8Buffer with
  | [] => INVALID_UTF8
  | [b] => b.toNat
  | b :: bs =>
    let utf8Length := bs.length + 1
    let ucs4Char := b.toNat &&& ((1 <<< (7 - utf8Length)) - 1)
    let minucs4Char := minucs4Table[utf8Length - 2]?.getD 0
    let ucs4Char := bs.foldl (fun ucs4Char b => (ucs4Char <<< 6) ||| (b.toNat &&& 0x3F)) ucs4Char
    if ucs4Char < minucs4Char then INVALID_UTF8
    else if kind = .UTF8Chars && IsSurrogate ucs4Char then INVALID_UTF8
    else ucs4Char

-- `while (v & (0x80 >> n)) n++`. For `n = 8` the condition is false.
def countLeadingOnes (v : BitVec 8) : Nat → Nat → Nat
  | 0, n => n
  | rounds + 1, n => if v &&& (0x80#8 >>> n) ≠ 0 then countLeadingOnes v rounds (n + 1) else n

def sequenceLength (v : BitVec 8) : Nat := countLeadingOnes v 7 1

def refusesSecondByte (kind : InputChars) (v second : BitVec 8) : Bool :=
  if v = 0xE0 && second &&& 0xE0 ≠ 0xA0
      || v = 0xED && second &&& 0xE0 ≠ 0x80
      || v = 0xF0 && second &&& 0xF0 = 0x80
      || v = 0xF4 && second &&& 0xF0 ≠ 0x80 then
    match kind with
    | .UTF8Chars => true
    | .WTF8Chars => v = 0xED && second &&& 0xE0 ≠ 0xA0
  else false

def addOffset (i n : Nat) : Nat := (i + n) % 2 ^ 32

-- The first of the bytes from `m` on that does not continue the sequence at `i`. There is no result when the
-- source is read outside.
def findNonContinuation (src : List (BitVec 8)) (i : Nat) : Nat → Nat → Option (Option Nat)
  | 0, _ => some none
  | rounds + 1, m => do
    let b ← src[addOffset i m]?
    if b &&& 0xC0 ≠ 0x80 then some (some m) else findNonContinuation src i rounds (m + 1)

inductive Found where
  | units (units : List (BitVec 16)) (n : Nat)
  | invalid (report : Report) (n : Nat)
deriving DecidableEq, Repr

def inflateCodePoint (v n : Nat) : Found :=
  if v < NonBMPMin then .units [.ofNat 16 v] n
  else if v ≤ NonBMPMax then .units [LeadSurrogate v, TrailSurrogate v] n
  else .invalid (.ReportTooBigCharacter v) 1

def decodeAt (kind : InputChars) (src : List (BitVec 8)) (i : Nat) : Option Found := do
  let v ← src[i]?
  if v &&& 0x80 = 0 then some (.units [v.setWidth 16] 1)
  else
    let n := sequenceLength v
    if n < 2 ∨ n > 4 then some (.invalid (.ReportInvalidCharacter i) 1)
    else if addOffset i n > src.length then some (.invalid .ReportBufferTooSmall 1)
    else
      let second ← src[addOffset i 1]?
      if refusesSecondByte kind v second then some (.invalid (.ReportInvalidCharacter i) 1)
      else
        match ← findNonContinuation src i (n - 1) 1 with
        | some m => some (.invalid (.ReportInvalidCharacter i) m)
        | none => some (inflateCodePoint (Utf8ToOneUcs4CharImpl kind ((src.drop i).take n)) n)

section

variable {σ : Type}

-- The loop of `InflateUTF8ToUTF16` from `i` on. Its result is missing when it takes more rounds, when memory is
-- accessed outside of a buffer and when it crashes. The output functions below never break the loop.
def inflateFrom (errorAction : OnUTF8Error) (kind : InputChars) (src : List (BitVec 8))
    (dst : σ → BitVec 16 → Option σ) : Nat → Nat → σ → Option (Except Report σ)
  | 0, _, _ => none
  | rounds + 1, i, s =>
    if i < src.length then do
      match ← decodeAt kind src i with
      | .units units n =>
        let s ← units.foldlM dst s
        inflateFrom errorAction kind src dst rounds (addOffset i n) s
      | .invalid report n =>
        match errorAction with
        | .Throw => some (.error report)
        | .Crash => none
        | .InsertReplacementCharacter =>
          let s ← dst s REPLACEMENT_CHARACTER
          inflateFrom errorAction kind src dst rounds (addOffset i n) s
        | .InsertQuestionMark =>
          let s ← dst s 0x3F
          inflateFrom errorAction kind src dst rounds (addOffset i n) s
    else some (.ok s)

def InflateUTF8ToUTF16 (errorAction : OnUTF8Error) (kind : InputChars) (src : List (BitVec 8))
    (dst : σ → BitVec 16 → Option σ) (rounds : Nat) (s : σ) : Option (Except Report σ) :=
  inflateFrom errorAction kind src dst rounds 0 s

end

abbrev Buffer (t : CharT) := List (Option (BitVec t.width))

def write {t : CharT} (buffer : Buffer t) (j : Nat) (c : BitVec t.width) : Option (Buffer t) :=
  if j < buffer.length then some (buffer.set j (some c)) else none

-- The loop `dst[i] = CharT(src[i])`. From `2 ^ 32` bytes on its 32-bit index never reaches the length.
def copyASCII {t : CharT} (src : List (BitVec 8)) : Nat → Nat → Buffer t → Option (Buffer t)
  | 0, _, _ => none
  | rounds + 1, i, dst =>
    if i < src.length then do
      let c ← src[i]?
      copyASCII src rounds (addOffset i 1) (← write dst i (c.setWidth t.width))
    else some dst

def push {t : CharT} (s : Buffer t × Nat) (c : BitVec 16) : Option (Buffer t × Nat) := do
  some (← write s.1 s.2 (c.setWidth t.width), s.2 + 1)

def CopyAndInflateUTF8IntoBuffer (errorAction : OnUTF8Error) (kind : InputChars) {t : CharT}
    (src : List (BitVec 8)) (dst : Buffer t) (outlen : Nat) (allASCII : Bool) (rounds : Nat) : Option (Buffer t) := do
  if allASCII then
    let dst ← copyASCII src rounds 0 dst
    write dst outlen 0
  else
    match ← InflateUTF8ToUTF16 errorAction kind src push rounds (dst, 0) with
    | .error _ => none
    | .ok (dst, _) => write dst outlen 0

structure CharsZ where
  charT : CharT
  chars : Buffer charT
  length : Nat
deriving Repr

def count (s : Nat × Bool) (c : BitVec 16) : Option (Nat × Bool) := some (s.1 + 1, s.2 && c.toNat < 0x80)

-- `granted` says whether `pod_arena_malloc` returns a buffer.
def InflateUTF8StringHelper (errorAction : OnUTF8Error) (t : CharT) (kind : InputChars) (src : List (BitVec 8))
    (granted : Bool) (rounds : Nat) : Option (Except Report CharsZ) := do
  match ← InflateUTF8ToUTF16 errorAction kind src count rounds (0, true) with
  | .error report => some (.error report)
  | .ok (len, allASCII) =>
    if !granted then some (.error .ReportOutOfMemory)
    else
      let errorMode := if t = .Latin1Char then .InsertQuestionMark else .InsertReplacementCharacter
      let dst ← CopyAndInflateUTF8IntoBuffer errorMode kind src (.replicate (len + 1) none) len allASCII rounds
      some (.ok ⟨t, dst, len⟩)

section

variable (src : List (BitVec 8)) (granted : Bool) (rounds : Nat)

def UTF8CharsToNewTwoByteCharsZ : Option (Except Report CharsZ) :=
  InflateUTF8StringHelper .Throw .char16_t .UTF8Chars src granted rounds

def WTF8CharsToNewTwoByteCharsZ : Option (Except Report CharsZ) :=
  InflateUTF8StringHelper .Throw .char16_t .WTF8Chars src granted rounds

def LossyUTF8CharsToNewTwoByteCharsZ : Option (Except Report CharsZ) :=
  InflateUTF8StringHelper .InsertReplacementCharacter .char16_t .UTF8Chars src granted rounds

def UTF8CharsToNewLatin1CharsZ : Option (Except Report CharsZ) :=
  InflateUTF8StringHelper .Throw .Latin1Char .UTF8Chars src granted rounds

def LossyUTF8CharsToNewLatin1CharsZ : Option (Except Report CharsZ) :=
  InflateUTF8StringHelper .InsertQuestionMark .Latin1Char .UTF8Chars src granted rounds

end

inductive SmallestEncoding where
  | ASCII
  | Latin1
  | UTF16
deriving DecidableEq, Repr

def SmallestEncoding.rank : SmallestEncoding → Nat
  | ASCII => 0
  | Latin1 => 1
  | UTF16 => 2

def UpdateSmallestEncodingForChar (c : BitVec 16) (encoding : SmallestEncoding) : SmallestEncoding :=
  let newEncoding : SmallestEncoding :=
    if c.toNat ≥ 0x80 then if c.toNat < 0x100 then .Latin1 else .UTF16 else .ASCII
  if newEncoding.rank > encoding.rank then newEncoding else encoding

def AddToHash (aHash : BitVec 32) (aValue : BitVec 16) : BitVec 32 :=
  0x9E3779B9#32 * (aHash.rotateLeft 5 ^^^ aValue.setWidth 32)

structure AtomizationData where
  outlen : Nat
  encoding : SmallestEncoding
  hashNum : BitVec 32
deriving DecidableEq, Repr

def getMetadata (data : AtomizationData) (c : BitVec 16) : Option AtomizationData :=
  some ⟨data.outlen + 1, UpdateSmallestEncodingForChar c data.encoding, AddToHash data.hashNum c⟩

def GetUTF8AtomizationData (kind : InputChars) (utf8 : List (BitVec 8)) (rounds : Nat) :
    Option (Except Report AtomizationData) :=
  InflateUTF8ToUTF16 .Throw kind utf8 getMetadata rounds ⟨0, .ASCII, 0⟩

def InflateUTF8CharsToBufferAndTerminate (kind : InputChars) {t : CharT} (src : List (BitVec 8)) (dst : Buffer t)
    (dstLen : Nat) (encoding : SmallestEncoding) (rounds : Nat) : Option (Buffer t) :=
  CopyAndInflateUTF8IntoBuffer .Crash kind src dst dstLen (encoding = .ASCII) rounds

def MakeUTF8AtomHelper (kind : InputChars) (t : CharT) (chars : List (BitVec 8)) (data : AtomizationData)
    (rounds : Nat) : Option CharsZ := do
  let dst ← InflateUTF8CharsToBufferAndTerminate kind chars (.replicate (data.outlen + 1) none) data.outlen
    data.encoding rounds
  some ⟨t, dst, data.outlen⟩

def inflateForAtomization (kind : InputChars) (chars : List (BitVec 8)) (granted : Bool) (rounds : Nat) :
    Option (Except Report CharsZ) := do
  match ← GetUTF8AtomizationData kind chars rounds with
  | .error report => some (.error report)
  | .ok data =>
    if !granted then some (.error .ReportOutOfMemory)
    else
      let t := if data.encoding = .UTF16 then .char16_t else .Latin1Char
      some (.ok (← MakeUTF8AtomHelper kind t chars data rounds))

inductive Inflation where
  | UTF8CharsToNewTwoByteCharsZ
  | WTF8CharsToNewTwoByteCharsZ
  | LossyUTF8CharsToNewTwoByteCharsZ
  | UTF8CharsToNewLatin1CharsZ
  | LossyUTF8CharsToNewLatin1CharsZ
  | inflateForAtomization (kind : InputChars)
deriving DecidableEq, Repr

def Inflation.inflate : Inflation → List (BitVec 8) → Bool → Nat → Option (Except Report CharsZ)
  | UTF8CharsToNewTwoByteCharsZ => CharacterEncoding.UTF8CharsToNewTwoByteCharsZ
  | WTF8CharsToNewTwoByteCharsZ => CharacterEncoding.WTF8CharsToNewTwoByteCharsZ
  | LossyUTF8CharsToNewTwoByteCharsZ => CharacterEncoding.LossyUTF8CharsToNewTwoByteCharsZ
  | UTF8CharsToNewLatin1CharsZ => CharacterEncoding.UTF8CharsToNewLatin1CharsZ
  | LossyUTF8CharsToNewLatin1CharsZ => CharacterEncoding.LossyUTF8CharsToNewLatin1CharsZ
  | inflateForAtomization kind => CharacterEncoding.inflateForAtomization kind

end SpiderMonkey.CharacterEncoding
