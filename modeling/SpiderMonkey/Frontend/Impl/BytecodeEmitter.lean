import SpiderMonkey.Frontend.Impl.SourceNotes

/-!
This module contains what the bytecode emitter does for source notes: it counts the bytecode it emits and annotates
it with positions in the source. The fields for the last separator are left out, they decide only whether a
breakpoint note is asked for.
-/

namespace SpiderMonkey.Frontend

-- What the emitter asks its parser. Whether an offset is on a line is looked up in the line starts, which fails
-- on a line past the last of them.
structure ErrorReporter where
  lineAt : UInt32 → UInt32
  columnAt : UInt32 → UInt32
  isOnThisLine : (offset lineNum : UInt32) → Option Bool
  isOnThisLine_eq : ∀ offset lineNum onThisLine, isOnThisLine offset lineNum = some onThisLine
    → onThisLine = decide (lineAt offset = lineNum)
  columnAt_lt : ∀ offset, (columnAt offset).toNat < 2 ^ 30

structure BytecodeSection where
  codeLength : Nat
  notes : SrcNotesVector
  lastNoteOffset : Nat
  currentLine : UInt32
  lastColumn : UInt32
  lastSourceOffset : UInt32
deriving DecidableEq

namespace BytecodeSection

def init (lineNum : UInt32) : BytecodeSection where
  codeLength := 0
  notes := []
  lastNoteOffset := 0
  currentLine := lineNum
  lastColumn := 0
  lastSourceOffset := 0

def offset (sec : BytecodeSection) : Nat := sec.codeLength

def setCurrentLine (sec : BytecodeSection) (line sourceOffset : UInt32) : BytecodeSection :=
  { sec with currentLine := line, lastColumn := 0, lastSourceOffset := sourceOffset }

def setLastColumn (sec : BytecodeSection) (column offset : UInt32) : BytecodeSection :=
  { sec with lastColumn := column, lastSourceOffset := offset }

end BytecodeSection

inductive EmitterMode where
  | Normal
  | SelfHosting
  | LazyFunction
deriving DecidableEq

structure BytecodeEmitter where
  bytecodeSection : BytecodeSection
  mainOffset : Option Nat
  emitterMode : EmitterMode
deriving DecidableEq

def MaxBytecodeLength : Nat := 2 ^ 31 - 1

namespace BytecodeSection

def newSrcNote (type : SrcNoteType) (sec : BytecodeSection) : Option BytecodeSection := do
  let offset := sec.offset
  let delta := offset - sec.lastNoteOffset
  let sec := { sec with lastNoteOffset := offset }
  let notes ← SrcNoteWriter.writeNote type delta sec.notes
  return { sec with notes := notes }

def newSrcNoteOperand (operand : Int) (sec : BytecodeSection) : Option BytecodeSection :=
  if SrcNote.isRepresentableOperand operand then do
    let notes ← SrcNoteWriter.writeOperand operand.toNat sec.notes
    return { sec with notes := notes }
  else none

def newSrcNote2 (type : SrcNoteType) (offset : Int) (sec : BytecodeSection) : Option BytecodeSection := do
  let sec ← sec.newSrcNote type
  sec.newSrcNoteOperand offset

def newLineNotes : (again : Nat) → (sec : BytecodeSection) → Option BytecodeSection
  | 0, sec => sec.newSrcNote .newLine
  | again + 1, sec => do
    let sec ← sec.newSrcNote .newLine
    newLineNotes again sec

end BytecodeSection

namespace BytecodeEmitter

variable (er : ErrorReporter)

def init (lineNum : UInt32) (emitterMode : EmitterMode) : BytecodeEmitter where
  bytecodeSection := BytecodeSection.init lineNum
  mainOffset := none
  emitterMode := emitterMode

def inPrologue (bce : BytecodeEmitter) : Bool := bce.mainOffset.isNone

def skipLocationSrcNotes (bce : BytecodeEmitter) : Bool := bce.inPrologue || bce.emitterMode == .SelfHosting

def switchToMain (bce : BytecodeEmitter) : Option BytecodeEmitter :=
  if bce.inPrologue then some { bce with mainOffset := some bce.bytecodeSection.codeLength } else none

def emitCheck (delta : Nat) (bce : BytecodeEmitter) : Option BytecodeEmitter :=
  let newLength := bce.bytecodeSection.codeLength + delta
  if newLength > MaxBytecodeLength then none
  else some { bce with bytecodeSection := { bce.bytecodeSection with codeLength := newLength } }

def newSrcNote (type : SrcNoteType) (bce : BytecodeEmitter) : Option BytecodeEmitter := do
  let sec ← bce.bytecodeSection.newSrcNote type
  return { bce with bytecodeSection := sec }

end BytecodeEmitter

namespace BytecodeSection

variable (er : ErrorReporter)

def updateLineNumberNotes (offset : UInt32) (sec : BytecodeSection) : Option BytecodeSection := do
  let onThisLine ← er.isOnThisLine offset sec.currentLine
  if onThisLine then
    return sec
  else
    let line := er.lineAt offset
    let delta := line - sec.currentLine
    let sec := sec.setCurrentLine line offset
    if delta ≥ SrcNote.SetLine.lengthFor line then
      sec.newSrcNote2 .setLine (SrcNote.SetLine.toOperand line)
    else
      sec.newLineNotes (delta - 1).toNat

def updateColumnNotes (offset : UInt32) (sec : BytecodeSection) : Option BytecodeSection :=
  let columnIndex := er.columnAt offset
  let colspan : Int := columnIndex.toNat - sec.lastColumn.toNat
  if colspan ≠ 0 then
    if !SrcNote.ColSpan.isRepresentable colspan then
      some sec
    else do
      let sec ← sec.newSrcNote2 .colSpan (SrcNote.ColSpan.toOperand colspan)
      return sec.setLastColumn columnIndex offset
  else some sec

end BytecodeSection

namespace BytecodeEmitter

variable (er : ErrorReporter)

def updateLineNumberNotes (offset : UInt32) (bce : BytecodeEmitter) : Option BytecodeEmitter :=
  if bce.skipLocationSrcNotes then some bce
  else do
    let sec ← bce.bytecodeSection.updateLineNumberNotes er offset
    return { bce with bytecodeSection := sec }

def updateSourceCoordNotes (offset : UInt32) (bce : BytecodeEmitter) : Option BytecodeEmitter := do
  let bce ← bce.updateLineNumberNotes er offset
  if bce.skipLocationSrcNotes then return bce
  else
    let sec ← bce.bytecodeSection.updateColumnNotes er offset
    return { bce with bytecodeSection := sec }

end BytecodeEmitter

inductive OtherNote where
  | assignOp
  | breakpoint
  | stepSep
deriving DecidableEq

def OtherNote.type : OtherNote → SrcNoteType
  | assignOp => .assignOp
  | breakpoint => .breakpoint
  | stepSep => .stepSep

inductive Emission where
  | emit (delta : Nat)
  | updateSourceCoordNotes (offset : UInt32)
  | newSrcNote (note : OtherNote)
  | switchToMain
deriving DecidableEq

namespace BytecodeEmitter

variable (er : ErrorReporter)

def step (bce : BytecodeEmitter) : Emission → Option BytecodeEmitter
  | .emit delta => bce.emitCheck delta
  | .updateSourceCoordNotes offset => bce.updateSourceCoordNotes er offset
  | .newSrcNote note => bce.newSrcNote note.type
  | .switchToMain => bce.switchToMain

def run (lineNum : UInt32) (emitterMode : EmitterMode) (emissions : List Emission) : Option BytecodeEmitter :=
  emissions.foldlM (step er) (init lineNum emitterMode)

def CodeNoteAlign : Nat := 4
def flagLength : Nat := 1

def ComputeNotePadding (codeLength noteLength : Nat) : Nat :=
  CodeNoteAlign - (flagLength + codeLength + noteLength) % CodeNoteAlign

def finish (bce : BytecodeEmitter) : SrcNotesVector :=
  let sec := bce.bytecodeSection
  let nullLength := ComputeNotePadding sec.codeLength sec.notes.length
  sec.notes ++ List.replicate nullLength SrcNote.terminator

end BytecodeEmitter

end SpiderMonkey.Frontend
