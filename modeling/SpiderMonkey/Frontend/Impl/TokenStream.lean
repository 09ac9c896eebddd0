import SpiderMonkey.Frontend.Impl.SourceUnits

/-!
This module contains the table of the line starts of a source text, and the lookup of the line and of the column
of an offset with everything that is cached for it.
-/

namespace SpiderMonkey.Frontend

def MAX_PTR : Nat := 2 ^ 32 - 1

def UINT32_MAX : UInt32 := 0xFFFFFFFF

structure SourceCoords where
  lineStartOffsets : List Nat
  initialLineNum : UInt32
  lastIndex : Nat

namespace SourceCoords

def new (initialLineNumber : UInt32) (initialOffset : Nat) : SourceCoords :=
  { lineStartOffsets := [initialOffset, MAX_PTR], initialLineNum := initialLineNumber, lastIndex := 0 }

variable (coords : SourceCoords)

def lineNumberFromIndex (index : Nat) : UInt32 := UInt32.ofNat index + coords.initialLineNum

def indexFromLineNumber (lineNum : UInt32) : Nat := (lineNum - coords.initialLineNum).toNat

def lineStart (index : Nat) : Option Nat := coords.lineStartOffsets[index]?

-- `appended` says whether there is memory for a further entry.
def add (lineNum : UInt32) (lineStartOffset : Nat) (appended : Bool) : Bool × SourceCoords :=
  let index := coords.indexFromLineNumber lineNum
  let sentinelIndex := coords.lineStartOffsets.length - 1
  if index = sentinelIndex then
    if appended then
      let offsets := (coords.lineStartOffsets ++ [MAX_PTR]).set index lineStartOffset
      (true, { coords with lineStartOffsets := offsets })
    else (false, coords)
  else
    (true, coords)

def appendAll (offsets : List Nat) : Nat → List Nat → Bool × List Nat
  | _, [] => (true, offsets)
  | 0, _ :: _ => (false, offsets)
  | granted + 1, offset :: rest => appendAll (offsets ++ [offset]) granted rest

def fill (other : SourceCoords) (granted : Nat) : Option (Bool × SourceCoords) :=
  if other.lineStartOffsets.length ≤ coords.lineStartOffsets.length then some (true, coords)
  else do
    let sentinelIndex := coords.lineStartOffsets.length - 1
    let lineStartOffset ← other.lineStartOffsets[sentinelIndex]?
    let (ok, offsets) := appendAll (coords.lineStartOffsets.set sentinelIndex lineStartOffset) granted
      (other.lineStartOffsets.drop (sentinelIndex + 1))
    some (ok, { coords with lineStartOffsets := offsets })

-- The rounds of the loop. There is no result when an entry outside of the table is read.
def binarySearch (offset : Nat) : Nat → Nat → Nat → Option Nat
  | 0, _, _ => none
  | rounds + 1, iMin, iMax =>
    if iMin < iMax then do
      let iMid := iMin + (iMax - iMin) / 2
      let start ← coords.lineStartOffsets[iMid + 1]?
      if start ≤ offset then binarySearch offset rounds (iMid + 1) iMax
      else binarySearch offset rounds iMin iMid
    else some iMin

def searchFrom (offset iMin : Nat) : Option (Nat × SourceCoords) := do
  let length := coords.lineStartOffsets.length
  let index ← coords.binarySearch offset length iMin (length - 2)
  some (index, { coords with lastIndex := index })

def indexFromOffset (offset : Nat) : Option (Nat × SourceCoords) := do
  let offsets := coords.lineStartOffsets
  let lastIndex := coords.lastIndex
  let start ← offsets[lastIndex]?
  if start ≤ offset then
    let next ← offsets[lastIndex + 1]?
    if offset < next then some (lastIndex, coords)
    else
      let next ← offsets[lastIndex + 2]?
      if offset < next then some (lastIndex + 1, { coords with lastIndex := lastIndex + 1 })
      else
        let next ← offsets[lastIndex + 3]?
        if offset < next then some (lastIndex + 2, { coords with lastIndex := lastIndex + 2 })
        else coords.searchFrom offset (lastIndex + 3)
  else coords.searchFrom offset 0

end SourceCoords

inductive UnitsType where
  | PossiblyMultiUnit
  | GuaranteedSingleUnit
deriving DecidableEq, Repr

structure ChunkInfo where
  column : Nat
  unitsType : UnitsType
deriving DecidableEq, Repr

def ChunkInfo.guaranteeSingleUnits (chunk : ChunkInfo) : ChunkInfo :=
  { chunk with unitsType := .GuaranteedSingleUnit }

def ColumnChunkLength : Nat := 128

structure TokenStreamAnyChars where
  srcCoords : SourceCoords
  longLineColumnInfo : UInt32 → Option (List ChunkInfo)
  lineOfLastColumnComputation : UInt32
  -- A pointer to the value that the map has for this line.
  lastChunkVectorForLine : Option UInt32
  lastOffsetOfComputedColumn : Nat
  lastComputedColumn : Nat

namespace TokenStreamAnyChars

def new (lineno : UInt32) (scriptSourceOffset : Nat) : TokenStreamAnyChars :=
  { srcCoords := .new lineno scriptSourceOffset, longLineColumnInfo := fun _ => none,
    lineOfLastColumnComputation := UINT32_MAX, lastChunkVectorForLine := none,
    lastOffsetOfComputedColumn := MAX_PTR, lastComputedColumn := 0 }

structure Memory where
  forEntry : Bool
  forChunks : Bool

variable (chars : TokenStreamAnyChars)

def lastChunkVector : Option (List ChunkInfo) := chars.lastChunkVectorForLine.bind chars.longLineColumnInfo

def setLastChunkVector (chunks : List ChunkInfo) : TokenStreamAnyChars :=
  { chars with
    longLineColumnInfo := fun line =>
      if chars.lastChunkVectorForLine = some line then some chunks else chars.longLineColumnInfo line }

def resetForLine (line : UInt32) (start : Nat) : TokenStreamAnyChars :=
  if line = chars.lineOfLastColumnComputation then chars
  else
    { chars with
      lineOfLastColumnComputation := line, lastChunkVectorForLine := none,
      lastOffsetOfComputedColumn := start, lastComputedColumn := 0 }

section

variable {e : Encoding} (sourceUnits : SourceUnits e)

def ColumnFromPartial (offset partialOffset partialCols : Nat) (unitsType : UnitsType)
    : Option (Nat × TokenStreamAnyChars) := do
  let (partialOffset, partialCols) :=
    if partialOffset < chars.lastOffsetOfComputedColumn ∧ chars.lastOffsetOfComputedColumn ≤ offset then
      (chars.lastOffsetOfComputedColumn, chars.lastComputedColumn)
    else (partialOffset, partialCols)
  let first := sourceUnits.codeUnitPtrAt partialOffset
  let last := sourceUnits.codeUnitPtrAt offset
  let offsetDelta := last - first
  let numCodePoints ←
    match unitsType with
    | .GuaranteedSingleUnit => some offsetDelta
    | .PossiblyMultiUnit => CountCodePoints sourceUnits.base first last
  let column := partialCols + numCodePoints
  some (column, { chars with
    lastOffsetOfComputedColumn := partialOffset + offsetDelta, lastComputedColumn := column })

def unitsTypeOfFirstChunk : UnitsType :=
  match chars.lastChunkVector with
  | some (chunk :: _) => chunk.unitsType
  | _ => .PossiblyMultiUnit

def lookupChunkVector (line : UInt32) (memory : Memory) : Option (TokenStreamAnyChars) :=
  match chars.lastChunkVectorForLine with
  | some _ => some chars
  | none =>
    match chars.longLineColumnInfo line with
    | some _ => some { chars with lastChunkVectorForLine := some line }
    | none =>
      if memory.forEntry then
        some ({ chars with lastChunkVectorForLine := some line }.setLastChunkVector [])
      else none

def RetractedOffsetOfChunk (start limit index : Nat) : Option Nat := do
  let naiveOffset := start + index * ColumnChunkLength
  let naivePtr := sourceUnits.codeUnitPtrAt naiveOffset
  let actualPtr ← RetractPointerToCodePointBoundary sourceUnits.base naivePtr limit
  some (naiveOffset - (naivePtr - actualPtr))

def extendChunks (start offsetInLine limit chunkIndex : Nat)
    : Nat → Nat → Nat → Nat → List ChunkInfo → Option (Nat × Nat × List ChunkInfo)
  | 0, _, _, _, _ => none
  | rounds + 1, entriesLen, partialOffset, partialColumn, chunks => do
    let first := sourceUnits.codeUnitPtrAt partialOffset
    let chunkLimit := sourceUnits.codeUnitPtrAt (start + min (entriesLen * ColumnChunkLength) offsetInLine)
    let entriesLen := entriesLen + 1
    let chunkLimit ← RetractPointerToCodePointBoundary sourceUnits.base chunkLimit limit
    let numUnits := chunkLimit - first
    let numCodePoints ← CountCodePoints sourceUnits.base first chunkLimit
    let chunks :=
      if numUnits = numCodePoints then chunks.modify (chunks.length - 1) ChunkInfo.guaranteeSingleUnits else chunks
    let partialOffset := partialOffset + numUnits
    let partialColumn := partialColumn + numCodePoints
    let chunks := chunks ++ [⟨partialColumn, .PossiblyMultiUnit⟩]
    if entriesLen < chunkIndex + 1 then
      extendChunks start offsetInLine limit chunkIndex rounds entriesLen partialOffset partialColumn chunks
    else some (partialOffset, partialColumn, chunks)

def endOfChunks (start limit : Nat) (chunks : List ChunkInfo) : Option (Nat × Nat) :=
  match chunks.getLast? with
  | some chunk => do
    let partialOffset ← RetractedOffsetOfChunk sourceUnits start limit (chunks.length - 1)
    some (partialOffset, chunk.column)
  | none => some (start, 0)

def columnInNewChunk (offset start chunkIndex : Nat) (memory : Memory) (chunks : List ChunkInfo)
    : Option (Nat × TokenStreamAnyChars) := do
  let limit := sourceUnits.codeUnitPtrAt offset
  let (partialOffset, partialColumn) ← endOfChunks sourceUnits start limit chunks
  if memory.forChunks then
    let chunks := if chunks = [] then [⟨0, .PossiblyMultiUnit⟩] else chunks
    let (partialOffset, partialColumn, chunks) ← extendChunks sourceUnits start (offset - start) limit chunkIndex
      (chunkIndex + 1) chunks.length partialOffset partialColumn chunks
    (chars.setLastChunkVector chunks).ColumnFromPartial sourceUnits offset partialOffset partialColumn
      .PossiblyMultiUnit
  else
    chars.ColumnFromPartial sourceUnits offset partialOffset partialColumn .PossiblyMultiUnit

def columnInLongLine (offset start chunkIndex : Nat) (memory : Memory) : Option (Nat × TokenStreamAnyChars) := do
  let chunks ← chars.lastChunkVector
  match chunks[chunkIndex]? with
  | some chunk =>
    let limit := sourceUnits.codeUnitPtrAt offset
    let partialOffset ← RetractedOffsetOfChunk sourceUnits start limit chunkIndex
    chars.ColumnFromPartial sourceUnits offset partialOffset chunk.column chunk.unitsType
  | none => chars.columnInNewChunk sourceUnits offset start chunkIndex memory chunks

def computePartialColumn (index offset : Nat) (memory : Memory) : Option (Nat × TokenStreamAnyChars) := do
  let line := chars.srcCoords.lineNumberFromIndex index
  let start ← chars.srcCoords.lineStart index
  let chars := chars.resetForLine line start
  let chunkIndex := (offset - start) / ColumnChunkLength
  if chunkIndex = 0 then
    chars.ColumnFromPartial sourceUnits offset start 0 chars.unitsTypeOfFirstChunk
  else
    match chars.lookupChunkVector line memory with
    | some chars => chars.columnInLongLine sourceUnits offset start chunkIndex memory
    | none =>
      chars.ColumnFromPartial sourceUnits offset start 0 .PossiblyMultiUnit

end

inductive Call where
  | add (lineNum : UInt32) (lineStartOffset : Nat) (appended : Bool)
  | fill (other : SourceCoords) (granted : Nat)
  | lineToken (offset : Nat)
  | computePartialColumn (offset : Nat) (memory : Memory)

inductive Answer where
  | added (ok : Bool)
  | lineToken (index : Nat)
  | partialColumn (index column : Nat)
deriving DecidableEq, Repr

def answer {e : Encoding} (sourceUnits : SourceUnits e) : Call → Option (Answer × TokenStreamAnyChars)
  | .add lineNum lineStartOffset appended =>
    let (ok, coords) := chars.srcCoords.add lineNum lineStartOffset appended
    some (.added ok, { chars with srcCoords := coords })
  | .fill other granted => do
    let (ok, coords) ← chars.srcCoords.fill other granted
    some (.added ok, { chars with srcCoords := coords })
  | .lineToken offset => do
    let (index, coords) ← chars.srcCoords.indexFromOffset offset
    some (.lineToken index, { chars with srcCoords := coords })
  | .computePartialColumn offset memory => do
    let (index, coords) ← chars.srcCoords.indexFromOffset offset
    let (column, chars) ← { chars with srcCoords := coords }.computePartialColumn sourceUnits index offset memory
    some (.partialColumn index column, chars)

end TokenStreamAnyChars

end SpiderMonkey.Frontend
