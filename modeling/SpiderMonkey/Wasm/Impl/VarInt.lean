import SpiderMonkey.Lib.ByteStream

/-!
This module contains how the encoder and the decoder of wasm modules write and read integers of variable length.
Memory suffices, so that a writer does not run out of it.
-/

namespace SpiderMonkey.Wasm

open ByteStream

inductive IntSize where
  | bits32
  | bits64
deriving DecidableEq

namespace IntSize

def numBits : IntSize → Nat
  | bits32 => 32
  | bits64 => 64

def remainderBits (t : IntSize) : Nat := t.numBits % 7

def numBitsInSevens (t : IntSize) : Nat := t.numBits - t.remainderBits

end IntSize

abbrev UInt (t : IntSize) := BitVec t.numBits
abbrev SInt (t : IntSize) := BitVec t.numBits

abbrev Encoder := List (BitVec 8)

namespace Encoder

variable {t : IntSize}

theorem toNat_ushiftRight_lt {i : BitVec w} (h : i >>> 7 ≠ 0) : (i >>> 7).toNat < i.toNat := by
  rw [BitVec.toNat_ushiftRight, Nat.shiftRight_eq_div_pow]
  apply Nat.div_lt_self _ (by decide)
  apply Nat.pos_of_ne_zero
  intro hzero
  apply h
  apply BitVec.eq_of_toNat_eq
  simp [hzero]

def writeVarU (i : UInt t) (bytes : Encoder) : Encoder :=
  let byte := (i &&& 0x7f).setWidth 8
  let i' := i >>> 7
  let byte := if i' ≠ 0 then byte ||| 0x80#8 else byte
  let bytes := bytes ++ [byte]
  if i' ≠ 0 then writeVarU i' bytes else bytes
termination_by i.toNat
decreasing_by
  rename_i h
  exact toNat_ushiftRight_lt h

-- How far an integer is from the two that the shift leaves as they are.
def signedMagnitude (i : SInt t) : Nat := if i.toInt < 0 then (-i.toInt - 1).toNat else i.toInt.toNat

def writeVarSDone (i : SInt t) (byte : BitVec 8) : Bool :=
  (i == 0) && (byte &&& 0x40#8 == 0#8) || (i == -1) && (byte &&& 0x40#8 != 0#8)

theorem signedMagnitude_sshiftRight_lt {i : SInt t}
    (h : writeVarSDone (i.sshiftRight 7) ((i &&& 0x7f).setWidth 8) = false)
    : signedMagnitude (i.sshiftRight 7) < signedMagnitude i := by
  have hne : i ≠ 0 ∧ i ≠ -1 := by
    constructor
    . rintro rfl
      revert h
      cases t <;> decide
    rintro rfl
    revert h
    cases t <;> decide
  have hzero : i.toInt ≠ 0 := fun hzero => hne.1 (BitVec.eq_of_toInt_eq (by simpa using hzero))
  have hminus : i.toInt ≠ -1 := by
    intro hminus
    apply hne.2
    apply BitVec.eq_of_toInt_eq
    rw [hminus]
    cases t <;> decide
  unfold signedMagnitude
  rw [BitVec.toInt_sshiftRight, Int.shiftRight_eq_div_pow]
  have hpow : ((2 ^ 7 : Nat) : Int) = 128 := by decide
  rw [hpow]
  generalize i.toInt = x at hzero hminus
  split <;> split <;> omega

def writeVarS (i : SInt t) (bytes : Encoder) : Encoder :=
  let byte := (i &&& 0x7f).setWidth 8
  let i' := i.sshiftRight 7
  let done := writeVarSDone i' byte
  let bytes := bytes ++ [if done then byte else byte ||| 0x80#8]
  if done = false then writeVarS i' bytes else bytes
termination_by signedMagnitude i
decreasing_by
  rename_i h
  exact signedMagnitude_sshiftRight_lt h

def writeVarU32 (i : BitVec 32) (bytes : Encoder) : Encoder := writeVarU (t := .bits32) i bytes

-- There is no result if an assertion fails.
def patchVarU32 (offset : Nat) (patchBits assertBits : BitVec 32) (bytes : Encoder) : Option Encoder :=
  let assertByte := (assertBits &&& 0x7f).setWidth 8
  let patchByte := (patchBits &&& 0x7f).setWidth 8
  let assertBits' := assertBits >>> 7
  let patchBits' := patchBits >>> 7
  let assertByte := if assertBits' ≠ 0 then assertByte ||| 0x80#8 else assertByte
  let patchByte := if assertBits' ≠ 0 then patchByte ||| 0x80#8 else patchByte
  if bytes[offset]? = some assertByte then
    let bytes := bytes.set offset patchByte
    if assertBits' ≠ 0 then patchVarU32 (offset + 1) patchBits' assertBits' bytes else some bytes
  else none
termination_by assertBits.toNat
decreasing_by
  rename_i h
  exact toNat_ushiftRight_lt h

def varU32ByteLength (offset : Nat) (bytes : Encoder) : Nat :=
  ((bytes.drop offset).takeWhile fun byte => byte &&& 0x80#8 != 0#8).length + 1

def writePatchableVarU32 (bytes : Encoder) : Nat × Encoder := (bytes.length, writeVarU32 (-1) bytes)

def finishSection (offset : Nat) (bytes : Encoder) : Option Encoder :=
  patchVarU32 offset (BitVec.ofNat 32 (bytes.length - offset - varU32ByteLength offset bytes)) (-1) bytes

end Encoder

namespace Decoder

def readFixedU8 : Reader (BitVec 8) := byte

def readVarULast (t : IntSize) (u : UInt t) : Reader (UInt t) := do
  let byte ← readFixedU8
  if byte.setWidth 32 &&& (BitVec.allOnes 32 <<< t.remainderBits) ≠ 0#32 then failure
  else return u ||| (byte.setWidth t.numBits <<< t.numBitsInSevens)

def readVarUFrom (t : IntSize) : Nat → UInt t → Nat → Reader (UInt t)
  | 0, u, _ => readVarULast t u
  | rounds + 1, u, shift => do
    let byte ← readFixedU8
    if byte &&& 0x80#8 = 0#8 then return u ||| (byte.setWidth t.numBits <<< shift)
    else readVarUFrom t rounds (u ||| ((byte &&& 0x7f#8).setWidth t.numBits <<< shift)) (shift + 7)

def readVarU (t : IntSize) : Reader (UInt t) := readVarUFrom t (t.numBitsInSevens / 7) 0 0

def readVarSLast (t : IntSize) (s : SInt t) (shift : Nat) : Reader (SInt t) :=
  if t.remainderBits = 0 then failure
  else do
    let byte ← readFixedU8
    if byte &&& 0x80#8 ≠ 0#8 then failure
    else
      let mask := (0x7f#32 &&& (0xff#32 <<< t.remainderBits)).setWidth 8
      if byte &&& mask ≠ (if byte &&& (1#32 <<< (t.remainderBits - 1)).setWidth 8 ≠ 0#8 then mask else 0#8) then
        failure
      else return s ||| (byte.setWidth t.numBits <<< shift)

def readVarSFrom (t : IntSize) : Nat → SInt t → Nat → Reader (SInt t)
  | 0, s, shift => readVarSLast t s shift
  | rounds + 1, s, shift => do
    let byte ← readFixedU8
    let s := s ||| ((byte &&& 0x7f#8).setWidth t.numBits <<< shift)
    let shift := shift + 7
    if byte &&& 0x80#8 = 0#8 then
      if byte &&& 0x40#8 ≠ 0#8 then return s ||| (BitVec.allOnes t.numBits <<< shift)
      else return s
    else readVarSFrom t rounds s shift

def readVarS (t : IntSize) : Reader (SInt t) := readVarSFrom t (t.numBitsInSevens / 7) 0 0

def uncheckedByte : Reader (BitVec 8) := fun r =>
  r.data[r.pos]?.map fun b => (b, { r with pos := r.pos + 1 })

def uncheckedReadVarUFrom (t : IntSize) : Nat → UInt t → Nat → Reader (UInt t)
  | 0, decoded, _ => do
    let byte ← uncheckedByte
    return decoded ||| (byte.setWidth t.numBits <<< t.numBitsInSevens)
  | rounds + 1, decoded, shift => do
    let byte ← uncheckedByte
    if byte &&& 0x80#8 = 0#8 then return decoded ||| (byte.setWidth t.numBits <<< shift)
    else uncheckedReadVarUFrom t rounds (decoded ||| ((byte &&& 0x7f#8).setWidth t.numBits <<< shift)) (shift + 7)

def uncheckedReadVarU (t : IntSize) : Reader (UInt t) := uncheckedReadVarUFrom t (t.numBitsInSevens / 7) 0 0

end Decoder

end SpiderMonkey.Wasm
