import SpiderMonkey.Lib.ByteStream

/-!
This module contains the compact buffer: bytes, variable length integers, and integers in the byte order of
the machine. Memory suffices, so that a writer does not run out of it; a failed assertion of a reader is `none`.
-/

namespace SpiderMonkey

open ByteStream

def uint32 (n : Nat) : Nat := n % 2 ^ 32

def int32 (n : Int) : Int := n.bmod (2 ^ 32)

inductive Endianness where
  | little
  | big
deriving DecidableEq, Repr

def Endianness.bytes : Endianness → Nat → List (BitVec 8)
  | little, value => [0, 8, 16, 24].map fun i => BitVec.ofNat 8 (value >>> i)
  | big, value => [24, 16, 8, 0].map fun i => BitVec.ofNat 8 (value >>> i)

def Endianness.load (endianness : Endianness) (data : List (BitVec 8)) (pos : Nat) : Option Nat := do
  let b0 ← data[pos]?
  let b1 ← data[pos + 1]?
  let b2 ← data[pos + 2]?
  let b3 ← data[pos + 3]?
  match endianness with
  | little => return b0.toNat + b1.toNat * 2 ^ 8 + b2.toNat * 2 ^ 16 + b3.toNat * 2 ^ 24
  | big => return b3.toNat + b2.toNat * 2 ^ 8 + b1.toNat * 2 ^ 16 + b0.toNat * 2 ^ 24

abbrev CompactBufferWriter := List (BitVec 8)

namespace CompactBufferWriter

def writeByte (byte : Nat) (w : CompactBufferWriter) : CompactBufferWriter := w ++ [BitVec.ofNat 8 byte]

def writeUnsigned (value : Nat) (w : CompactBufferWriter) : CompactBufferWriter :=
  let byte := (value &&& 0x7F) <<< 1 ||| (if value > 0x7F then 1 else 0)
  let w := w.writeByte byte
  if value >>> 7 = 0 then w else w.writeUnsigned (value >>> 7)
termination_by value
decreasing_by
  rw [Nat.shiftRight_eq_div_pow] at *
  exact Nat.div_lt_self (by omega) (by omega)

def writeNativeEndianUint32_t (endianness : Endianness) (value : Nat) (w : CompactBufferWriter)
    : CompactBufferWriter :=
  w ++ endianness.bytes value

end CompactBufferWriter

-- The pointers buffer_ and end_ are positions in the memory that holds the bytes.
abbrev CompactBufferReader := Cursor

namespace CompactBufferReader

def readByte : Reader Nat := return (← byte).toNat

def readVariableLengthFrom : Nat → Nat → Nat → Reader Nat
  | 0, _, _ => failure
  | rounds + 1, val, shift => do
    let byte ← readByte
    let val := val ||| uint32 (byte >>> 1 <<< shift)
    let shift := shift + 7
    if byte &&& 1 = 0 then return val else readVariableLengthFrom rounds val shift

def readUnsigned : Reader Nat := readVariableLengthFrom 5 0 0

end CompactBufferReader

end SpiderMonkey
