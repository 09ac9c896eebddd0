import Mathlib.Data.Int.NatAbs

/-!
This module contains the source notes of a script, how they are written and read, and the two searches
through them that relate bytecode offsets and lines.
-/

namespace SpiderMonkey

inductive SrcNoteType where
  | null
  | assignOp
  | colSpan
  | newLine
  | setLine
  | breakpoint
  | stepSep
  | unused7
  | xDelta
deriving DecidableEq

def SrcNoteType.toBits : SrcNoteType → BitVec 8
  | null => 0
  | assignOp => 1
  | colSpan => 2
  | newLine => 3
  | setLine => 4
  | breakpoint => 5
  | stepSep => 6
  | unused7 => 7
  | xDelta => 8

def SrcNoteType.arity : SrcNoteType → Nat
  | colSpan => 1
  | setLine => 1
  | _ => 0

abbrev SrcNote := BitVec 8

abbrev SrcNotesVector := List SrcNote

namespace SrcNote

def DeltaMask : Nat := 2 ^ 4 - 1
def XDeltaMask : Nat := 2 ^ 7 - 1
def DeltaLimit : Nat := 2 ^ 4

def toShiftedTypeBits (type : SrcNoteType) : BitVec 8 := type.toBits <<< 4

def noteValue (type : SrcNoteType) (delta : Nat) : SrcNote :=
  toShiftedTypeBits type ||| BitVec.ofNat 8 (delta &&& DeltaMask)

def xDeltaValue (delta : Nat) : SrcNote :=
  toShiftedTypeBits .xDelta ||| BitVec.ofNat 8 (delta &&& XDeltaMask)

def terminator : SrcNote := noteValue .null 0

def typeBits (sn : SrcNote) : BitVec 8 := sn >>> 4

def isXDelta (sn : SrcNote) : Bool := sn.typeBits ≥ 8

def type (sn : SrcNote) : SrcNoteType :=
  if sn.isXDelta then .xDelta
  else match sn.typeBits.toNat with
    | 0 => .null
    | 1 => .assignOp
    | 2 => .colSpan
    | 3 => .newLine
    | 4 => .setLine
    | 5 => .breakpoint
    | 6 => .stepSep
    | _ => .unused7

def arity (sn : SrcNote) : Nat := sn.type.arity

def isTerminator (sn : SrcNote) : Bool := sn == SrcNoteType.null.toBits

def delta (sn : SrcNote) : Nat :=
  if sn.isXDelta then sn.toNat &&& XDeltaMask else sn.toNat &&& DeltaMask

def FourBytesOperandFlag : Nat := 0x80
def FourBytesOperandMask : Nat := 0x7f

def isFourBytesOperand (sn : SrcNote) : Bool := sn.toNat &&& FourBytesOperandFlag ≠ 0

def OperandBits : Nat := 31

def MaxOperand : Nat := 2 ^ OperandBits - 1

def isRepresentableOperand (operand : Int) : Bool := 0 ≤ operand ∧ operand ≤ MaxOperand

def ColSpan.ColSpanSignBit : Nat := 2 ^ (OperandBits - 1)
def ColSpan.MinColSpan : Int := -ColSpanSignBit
def ColSpan.MaxColSpan : Int := ColSpanSignBit - 1

def ColSpan.isRepresentable (colspan : Int) : Bool := MinColSpan ≤ colspan ∧ colspan ≤ MaxColSpan

def ColSpan.toOperand (colspan : Int) : Nat := (colspan % 2 ^ OperandBits).toNat

def ColSpan.fromOperand (operand : Nat) : Int := (operand ^^^ ColSpanSignBit : Nat) - ColSpanSignBit

def SetLine.lengthFor (line : UInt32) : UInt32 :=
  1 + if line.toNat > FourBytesOperandMask then 4 else 1

def SetLine.toOperand (line : UInt32) : Nat := line.toNat

def SetLine.fromOperand (operand : Nat) : Nat := operand

end SrcNote

open SrcNote

def MaxSrcNotesLength : Nat := 2 ^ 31 - 1

-- Memory suffices, so that the length of the vector alone makes an allocation fail.
def AllocSrcNote (notes : SrcNotesVector) (sns : List SrcNote) : Option SrcNotesVector :=
  if notes.length + sns.length > MaxSrcNotesLength then none else some (notes ++ sns)

namespace SrcNoteWriter

def writeNote (type : SrcNoteType) (delta : Nat) (notes : SrcNotesVector) : Option SrcNotesVector :=
  if _h : DeltaLimit ≤ delta then do
    let xdelta := min delta XDeltaMask
    let notes ← AllocSrcNote notes [xDeltaValue xdelta]
    writeNote type (delta - xdelta) notes
  else AllocSrcNote notes [noteValue type delta]
termination_by delta
decreasing_by
  simp only [DeltaLimit, XDeltaMask] at *
  omega

def writeOperand (operand : Nat) (notes : SrcNotesVector) : Option SrcNotesVector :=
  if operand > FourBytesOperandMask then
    AllocSrcNote notes
      [BitVec.ofNat 8 (FourBytesOperandFlag ||| operand >>> 24), BitVec.ofNat 8 (operand >>> 16),
        BitVec.ofNat 8 (operand >>> 8), BitVec.ofNat 8 operand]
  else AllocSrcNote notes [BitVec.ofNat 8 operand]

end SrcNoteWriter

abbrev SrcNotePtr := List SrcNote

def skipOperands : (which : Nat) → (curr : SrcNotePtr) → SrcNotePtr
  | 0, curr => curr
  | which + 1, curr =>
    if (curr.headD terminator).isFourBytesOperand then skipOperands which (curr.drop 4)
    else skipOperands which (curr.drop 1)

namespace SrcNoteReader

def getOperandHead (sn : SrcNotePtr) (which : Nat) : SrcNotePtr := skipOperands which (sn.drop 1)

def getOperand (sn : SrcNotePtr) (which : Nat) : Nat :=
  let head := getOperandHead sn which
  let value (i : Nat) : Nat := (head.getD i terminator).toNat
  if (head.headD terminator).isFourBytesOperand then
    (value 0 &&& FourBytesOperandMask) <<< 24 ||| value 1 <<< 16 ||| value 2 <<< 8 ||| value 3
  else value 0

end SrcNoteReader

def SrcNote.ColSpan.getSpan (sn : SrcNotePtr) : Int := fromOperand (SrcNoteReader.getOperand sn 0)

def SrcNote.SetLine.getLine (sn : SrcNotePtr) : Nat := fromOperand (SrcNoteReader.getOperand sn 0)

namespace SrcNoteIterator

def next (sn : SrcNote) (rest : SrcNotePtr) : SrcNotePtr := skipOperands sn.arity rest

def pointersFrom : (fuel : Nat) → SrcNotePtr → Option (List SrcNotePtr)
  | 0, _ => none
  | _ + 1, [] => none
  | fuel + 1, sn :: rest =>
    if sn.isTerminator then some []
    else (pointersFrom fuel (next sn rest)).map ((sn :: rest) :: ·)

def pointers (notes : SrcNotesVector) : Option (List SrcNotePtr) := pointersFrom notes.length notes

end SrcNoteIterator

def ptrType (sn : SrcNotePtr) : SrcNoteType := (sn.headD terminator).type

def ptrDelta (sn : SrcNotePtr) : Nat := (sn.headD terminator).delta

def PCToLineNumber.loop (target : Nat) : (offset : Nat) → (lineno column : UInt32) → List SrcNotePtr
    → UInt32 × UInt32
  | _, lineno, column, [] => (lineno, column)
  | offset, lineno, column, sn :: iter =>
    let offset := offset + ptrDelta sn
    if offset > target then (lineno, column)
    else match ptrType sn with
      | .setLine => loop target offset (UInt32.ofNat (SetLine.getLine sn)) 0 iter
      | .newLine => loop target offset (lineno + 1) 0 iter
      | .colSpan => loop target offset lineno (UInt32.ofInt (column.toNat + ColSpan.getSpan sn)) iter
      | _ => loop target offset lineno column iter

def PCToLineNumber (startLine : UInt32) (notes : SrcNotesVector) (target : Nat) : Option (UInt32 × UInt32) :=
  (SrcNoteIterator.pointers notes).map (PCToLineNumber.loop target 0 startLine 0)

structure JSScript where
  lineno : UInt32
  notes : SrcNotesVector
  mainOffset : Nat

def LineNumberToPC.loop (mainOffset : Nat) (target : UInt32) : (offset : Nat) → (lineno : UInt32)
    → (best : Option Nat) → (bestdiff : UInt32) → List SrcNotePtr → Nat
  | offset, _, best, _, [] => best.getD offset
  | offset, lineno, best, bestdiff, sn :: iter =>
    if lineno = target ∧ offset ≥ mainOffset then offset
    else
      let diff := lineno - target
      let closer := lineno ≥ target ∧ diff < bestdiff
      let best := if closer then some offset else best
      let bestdiff := if closer then diff else bestdiff
      let offset := offset + ptrDelta sn
      match ptrType sn with
      | .setLine => loop mainOffset target offset (UInt32.ofNat (SetLine.getLine sn)) best bestdiff iter
      | .newLine => loop mainOffset target offset (lineno + 1) best bestdiff iter
      | _ => loop mainOffset target offset lineno best bestdiff iter

def LineNumberToPC (script : JSScript) (target : UInt32) : Option Nat :=
  (SrcNoteIterator.pointers script.notes).map
    (LineNumberToPC.loop script.mainOffset target 0 script.lineno none (UInt32.ofNat MaxOperand))

end SpiderMonkey
