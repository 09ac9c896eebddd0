import SpiderMonkey.Jit.Impl.CompactBuffer

/-!
This module contains the table that maps the native code of Ion to bytecode: the runs of deltas, their writer,
and the search that finds the inlined scripts and their pcs for an offset into the code. A pc is its offset into
the bytecode of its script. What the assertions of the writer say is what its caller promises; a failed
assertion of a reader is `none`.
-/

namespace SpiderMonkey

open ByteStream CompactBufferReader

-- Trees are compared as pointers, hence the address.
inductive InlineScriptTree (JSScript : Type) where
  | outermost (address : Nat) (script : JSScript)
  | inlined (address : Nat) (caller : InlineScriptTree JSScript) (callerPc : Nat) (script : JSScript)
deriving DecidableEq

namespace InlineScriptTree

variable {JSScript : Type}

def script : InlineScriptTree JSScript → JSScript
  | outermost _ script | inlined _ _ _ script => script

def caller : InlineScriptTree JSScript → Option (InlineScriptTree JSScript × Nat)
  | outermost _ _ => none
  | inlined _ caller callerPc _ => some (caller, callerPc)

def depth : InlineScriptTree JSScript → Nat
  | outermost _ _ => 1
  | inlined _ caller _ _ => 1 + caller.depth

end InlineScriptTree

structure NativeToBytecode (JSScript : Type) where
  nativeOffset : Nat
  tree : InlineScriptTree JSScript
  pc : Nat

namespace JitcodeRegionEntry

def MAX_RUN_LENGTH : Nat := 100

def ENC1_MASK : Nat := 0x1
def ENC1_MASK_VAL : Nat := 0x0
def ENC1_NATIVE_DELTA_MAX : Nat := 0xf
def ENC1_NATIVE_DELTA_SHIFT : Nat := 4
def ENC1_PC_DELTA_MASK : Nat := 0x0e
def ENC1_PC_DELTA_MAX : Int := 0x7
def ENC1_PC_DELTA_SHIFT : Nat := 1

def ENC2_MASK : Nat := 0x3
def ENC2_MASK_VAL : Nat := 0x1
def ENC2_NATIVE_DELTA_MAX : Nat := 0xff
def ENC2_NATIVE_DELTA_SHIFT : Nat := 8
def ENC2_PC_DELTA_MASK : Nat := 0x00fc
def ENC2_PC_DELTA_MAX : Int := 0x3f
def ENC2_PC_DELTA_SHIFT : Nat := 2

def ENC3_MASK : Nat := 0x7
def ENC3_MASK_VAL : Nat := 0x3
def ENC3_NATIVE_DELTA_MAX : Nat := 0x7ff
def ENC3_NATIVE_DELTA_SHIFT : Nat := 13
def ENC3_PC_DELTA_MASK : Nat := 0x001ff8
def ENC3_PC_DELTA_MAX : Int := 0x1ff
def ENC3_PC_DELTA_MIN : Int := -ENC3_PC_DELTA_MAX - 1
def ENC3_PC_DELTA_SHIFT : Nat := 3

def ENC4_MASK : Nat := 0x7
def ENC4_MASK_VAL : Nat := 0x7
def ENC4_NATIVE_DELTA_MAX : Nat := 0xffff
def ENC4_NATIVE_DELTA_SHIFT : Nat := 16
def ENC4_PC_DELTA_MASK : Nat := 0x0000fff8
def ENC4_PC_DELTA_MAX : Int := 0xfff
def ENC4_PC_DELTA_MIN : Int := -ENC4_PC_DELTA_MAX - 1
def ENC4_PC_DELTA_SHIFT : Nat := 3

def IsDeltaEncodeable (nativeDelta : Nat) (pcDelta : Int) : Prop :=
  nativeDelta ≤ ENC4_NATIVE_DELTA_MAX ∧ pcDelta ≥ ENC4_PC_DELTA_MIN ∧ pcDelta ≤ ENC4_PC_DELTA_MAX

instance (nativeDelta : Nat) (pcDelta : Int) : Decidable (IsDeltaEncodeable nativeDelta pcDelta) :=
  inferInstanceAs (Decidable (_ ∧ _))

def toUnsigned (n : Int) : Nat := (n % 2 ^ 32).toNat

def WriteHead (nativeOffset scriptDepth : Nat) (writer : CompactBufferWriter) : CompactBufferWriter :=
  writer.writeUnsigned nativeOffset |>.writeByte scriptDepth

def ReadHead : Reader (Nat × Nat) := do
  let nativeOffset ← readUnsigned
  let scriptDepth ← readByte
  return (nativeOffset, scriptDepth)

def WriteScriptPc (scriptIdx pcOffset : Nat) (writer : CompactBufferWriter) : CompactBufferWriter :=
  writer.writeUnsigned scriptIdx |>.writeUnsigned pcOffset

def ReadScriptPc : Reader (Nat × Nat) := do
  let scriptIdx ← readUnsigned
  let pcOffset ← readUnsigned
  return (scriptIdx, pcOffset)

def WriteDelta (nativeDelta : Nat) (pcDelta : Int) (writer : CompactBufferWriter) : Option CompactBufferWriter :=
  if pcDelta ≥ 0 ∧ pcDelta ≤ ENC1_PC_DELTA_MAX ∧ nativeDelta ≤ ENC1_NATIVE_DELTA_MAX then
    let encVal := ENC1_MASK_VAL ||| toUnsigned pcDelta <<< ENC1_PC_DELTA_SHIFT
      ||| nativeDelta <<< ENC1_NATIVE_DELTA_SHIFT
    some (writer.writeByte encVal)
  else if pcDelta ≥ 0 ∧ pcDelta ≤ ENC2_PC_DELTA_MAX ∧ nativeDelta ≤ ENC2_NATIVE_DELTA_MAX then
    let encVal := (ENC2_MASK_VAL ||| toUnsigned pcDelta <<< ENC2_PC_DELTA_SHIFT
      ||| nativeDelta <<< ENC2_NATIVE_DELTA_SHIFT) % 2 ^ 16
    some (writer.writeByte (encVal &&& 0xff) |>.writeByte (encVal >>> 8 &&& 0xff))
  else if pcDelta ≥ ENC3_PC_DELTA_MIN ∧ pcDelta ≤ ENC3_PC_DELTA_MAX ∧ nativeDelta ≤ ENC3_NATIVE_DELTA_MAX then
    let encVal := uint32 (ENC3_MASK_VAL ||| (toUnsigned pcDelta <<< ENC3_PC_DELTA_SHIFT &&& ENC3_PC_DELTA_MASK)
      ||| nativeDelta <<< ENC3_NATIVE_DELTA_SHIFT)
    some (writer.writeByte (encVal &&& 0xff) |>.writeByte (encVal >>> 8 &&& 0xff)
      |>.writeByte (encVal >>> 16 &&& 0xff))
  else if pcDelta ≥ ENC4_PC_DELTA_MIN ∧ pcDelta ≤ ENC4_PC_DELTA_MAX ∧ nativeDelta ≤ ENC4_NATIVE_DELTA_MAX then
    let encVal := uint32 (ENC4_MASK_VAL ||| (toUnsigned pcDelta <<< ENC4_PC_DELTA_SHIFT &&& ENC4_PC_DELTA_MASK)
      ||| nativeDelta <<< ENC4_NATIVE_DELTA_SHIFT)
    some (writer.writeByte (encVal &&& 0xff) |>.writeByte (encVal >>> 8 &&& 0xff)
      |>.writeByte (encVal >>> 16 &&& 0xff) |>.writeByte (encVal >>> 24 &&& 0xff))
  else none

-- `pcDeltaU |= ~MAX` when the value is above MAX, read as an int32_t. The fields are narrower than 32 bits,
-- and MAX is the largest value of the field with its sign bit clear.
def fixSign (pcDeltaU : Nat) (max : Int) : Int :=
  let pcDeltaU := if pcDeltaU > max.toNat then pcDeltaU ||| toUnsigned (-max - 1) else pcDeltaU
  int32 pcDeltaU

def ReadDelta : Reader (Nat × Int) := do
  let firstByte ← readByte
  if firstByte &&& ENC1_MASK = ENC1_MASK_VAL then
    let encVal := firstByte
    let nativeDelta := encVal >>> ENC1_NATIVE_DELTA_SHIFT
    let pcDelta := int32 ((encVal &&& ENC1_PC_DELTA_MASK) >>> ENC1_PC_DELTA_SHIFT : Nat)
    guard (nativeDelta = 0 → pcDelta ≤ 0)
    return (nativeDelta, pcDelta)
  let secondByte ← readByte
  if firstByte &&& ENC2_MASK = ENC2_MASK_VAL then
    let encVal := firstByte ||| secondByte <<< 8
    let nativeDelta := encVal >>> ENC2_NATIVE_DELTA_SHIFT
    let pcDelta := int32 ((encVal &&& ENC2_PC_DELTA_MASK) >>> ENC2_PC_DELTA_SHIFT : Nat)
    guard (pcDelta ≠ 0)
    guard (nativeDelta = 0 → pcDelta ≤ 0)
    return (nativeDelta, pcDelta)
  let thirdByte ← readByte
  if firstByte &&& ENC3_MASK = ENC3_MASK_VAL then
    let encVal := firstByte ||| secondByte <<< 8 ||| thirdByte <<< 16
    let nativeDelta := encVal >>> ENC3_NATIVE_DELTA_SHIFT
    let pcDelta := fixSign ((encVal &&& ENC3_PC_DELTA_MASK) >>> ENC3_PC_DELTA_SHIFT) ENC3_PC_DELTA_MAX
    guard (pcDelta ≠ 0)
    guard (nativeDelta = 0 → pcDelta ≤ 0)
    return (nativeDelta, pcDelta)
  guard (firstByte &&& ENC4_MASK = ENC4_MASK_VAL)
  let fourthByte ← readByte
  let encVal := firstByte ||| secondByte <<< 8 ||| thirdByte <<< 16 ||| fourthByte <<< 24
  let nativeDelta := encVal >>> ENC4_NATIVE_DELTA_SHIFT
  let pcDelta := fixSign ((encVal &&& ENC4_PC_DELTA_MASK) >>> ENC4_PC_DELTA_SHIFT) ENC4_PC_DELTA_MAX
  guard (pcDelta ≠ 0)
  guard (nativeDelta = 0 → pcDelta ≤ 0)
  return (nativeDelta, pcDelta)

section Write

variable {JSScript : Type} [DecidableEq JSScript]

-- The difference of two offsets as a uint32_t, and of two pcs as an int32_t.
def nativeDelta (curNativeOffset nextNativeOffset : Nat) : Nat :=
  uint32 (nextNativeOffset + 2 ^ 32 - curNativeOffset)

def bytecodeDelta (curBytecodeOffset nextBytecodeOffset : Nat) : Int :=
  int32 (int32 nextBytecodeOffset - int32 curBytecodeOffset)

def expectedRunLengthFrom (tree : InlineScriptTree JSScript)
    : Nat → Nat → Nat → List (NativeToBytecode JSScript) → Nat
  | runLength, _, _, [] => runLength
  | runLength, curNativeOffset, curBytecodeOffset, nextEntry :: rest =>
    if nextEntry.tree ≠ tree then
      runLength
    else
      let nextNativeOffset := uint32 nextEntry.nativeOffset
      let nextBytecodeOffset := uint32 nextEntry.pc
      if ¬IsDeltaEncodeable (nativeDelta curNativeOffset nextNativeOffset)
          (bytecodeDelta curBytecodeOffset nextBytecodeOffset) then
        runLength
      else
        if runLength + 1 = MAX_RUN_LENGTH then
          runLength + 1
        else
          expectedRunLengthFrom tree (runLength + 1) nextNativeOffset nextBytecodeOffset rest

def ExpectedRunLength (entry : NativeToBytecode JSScript) (rest : List (NativeToBytecode JSScript)) : Nat :=
  expectedRunLengthFrom entry.tree 1 (uint32 entry.nativeOffset) (uint32 entry.pc) rest

def writeScriptPcStack (scriptList : List JSScript)
    : Nat → InlineScriptTree JSScript → Nat → CompactBufferWriter → CompactBufferWriter
  | 0, _, _, writer => writer
  | i + 1, curTree, curPc, writer =>
    let scriptIdx := scriptList.idxOf curTree.script
    let writer := WriteScriptPc scriptIdx (uint32 curPc) writer
    match curTree.caller with
    | some (caller, callerPc) => writeScriptPcStack scriptList i caller callerPc writer
    | none => writer

def writeDeltas
    : Nat → Nat → List (NativeToBytecode JSScript) → CompactBufferWriter → Option CompactBufferWriter
  | _, _, [], writer => some writer
  | curNativeOffset, curBytecodeOffset, entry :: entries, writer => do
    let nextNativeOffset := uint32 entry.nativeOffset
    let nextBytecodeOffset := uint32 entry.pc
    let writer ← WriteDelta (nativeDelta curNativeOffset nextNativeOffset)
      (bytecodeDelta curBytecodeOffset nextBytecodeOffset) writer
    writeDeltas nextNativeOffset nextBytecodeOffset entries writer

def WriteRun (scriptList : List JSScript) (runLength : Nat) (entry : NativeToBytecode JSScript)
    (rest : List (NativeToBytecode JSScript)) (writer : CompactBufferWriter) : Option CompactBufferWriter :=
  let scriptDepth := entry.tree.depth % 2 ^ 8
  let writer := WriteHead (uint32 entry.nativeOffset) scriptDepth writer
  let writer := writeScriptPcStack scriptList scriptDepth entry.tree entry.pc writer
  writeDeltas (uint32 entry.nativeOffset) (uint32 entry.pc) (rest.take (runLength - 1)) writer

end Write

end JitcodeRegionEntry

-- The pointers are positions in the memory that holds the table.
structure JitcodeRegionEntry where
  memory : List (BitVec 8)
  end_ : Nat
  nativeOffset : Nat
  scriptDepth : Nat
  scriptPcStack : Nat
  deltaRun : Nat

namespace JitcodeRegionEntry

def skipScriptPcs : Nat → Reader Unit
  | 0 => return ()
  | i + 1 => do
    let _ ← ReadScriptPc
    skipScriptPcs i

def unpack (memory : List (BitVec 8)) (data end_ : Nat) : Option JitcodeRegionEntry := do
  guard (data < end_)
  let ((nativeOffset, scriptDepth), reader) ← ReadHead ⟨memory, data, end_⟩
  guard (scriptDepth > 0)
  let scriptPcStack := reader.pos
  let (_, reader) ← skipScriptPcs scriptDepth reader
  let deltaRun := reader.pos
  guard (scriptPcStack < end_ ∧ deltaRun ≤ end_)
  return { memory, end_, nativeOffset, scriptDepth, scriptPcStack, deltaRun }

def iterateScriptPcs : Nat → CompactBufferReader → Option (List (Nat × Nat))
  | 0, reader => if reader.pos = reader.stop then some [] else none
  | count + 1, reader => do
    guard (reader.pos < reader.stop)
    let (pair, reader) ← ReadScriptPc reader
    let pairs ← iterateScriptPcs count reader
    return pair :: pairs

def scriptPcIterator (region : JitcodeRegionEntry) : Option (List (Nat × Nat)) :=
  iterateScriptPcs region.scriptDepth ⟨region.memory, region.scriptPcStack, region.deltaRun⟩

def findPcOffsetFrom (queryNativeOffset : Nat) : Nat → CompactBufferReader → Nat → Nat → Option Nat
  | 0, _, _, _ => none
  | rounds + 1, iter, curNativeOffset, curPcOffset =>
    if iter.pos < iter.stop then do
      let ((nativeDelta, pcDelta), iter) ← ReadDelta iter
      if queryNativeOffset ≤ uint32 (nativeDelta + curNativeOffset) then
        return curPcOffset
      else
        findPcOffsetFrom queryNativeOffset rounds iter (uint32 (nativeDelta + curNativeOffset))
          (toUnsigned (curPcOffset + pcDelta))
    else
      some curPcOffset

-- A delta takes a byte at least, which bounds the rounds.
def findPcOffset (region : JitcodeRegionEntry) (queryNativeOffset startPcOffset : Nat) : Option Nat :=
  findPcOffsetFrom queryNativeOffset (region.end_ - region.deltaRun + 1)
    ⟨region.memory, region.deltaRun, region.end_⟩ region.nativeOffset startPcOffset

end JitcodeRegionEntry

-- The table is in the middle of the memory, after its payload.
structure JitcodeIonTable where
  endianness : Endianness
  memory : List (BitVec 8)
  payloadEnd : Nat

namespace JitcodeIonTable

def numRegions (table : JitcodeIonTable) : Option Nat := table.endianness.load table.memory table.payloadEnd

def regionOffset (table : JitcodeIonTable) (regionIndex : Nat) : Option Nat := do
  guard (regionIndex < (← table.numRegions))
  table.endianness.load table.memory (table.payloadEnd + 4 + 4 * regionIndex)

def regionEntry (table : JitcodeIonTable) (regionIndex : Nat) : Option JitcodeRegionEntry := do
  let regionStart := table.payloadEnd - (← table.regionOffset regionIndex)
  if regionIndex < (← table.numRegions) - 1 then
    let regionEnd := table.payloadEnd - (← table.regionOffset (regionIndex + 1))
    JitcodeRegionEntry.unpack table.memory regionStart regionEnd
  else
    JitcodeRegionEntry.unpack table.memory regionStart table.payloadEnd

def LINEAR_SEARCH_THRESHOLD : Nat := 8

def linearSearch (table : JitcodeIonTable) (nativeOffset regions : Nat)
    : Nat → Nat → JitcodeRegionEntry → Option Nat
  | 0, _, _ => some (regions - 1)
  | left + 1, i, previousEntry => do
    let nextEntry ← table.regionEntry i
    guard (nextEntry.nativeOffset ≥ previousEntry.nativeOffset)
    if nativeOffset ≤ nextEntry.nativeOffset then
      return i - 1
    else
      linearSearch table nativeOffset regions left (i + 1) nextEntry

def binarySearch (table : JitcodeIonTable) (nativeOffset idx count : Nat) : Option Nat :=
  if count > 1 then do
    let midEntry ← table.regionEntry (idx + count / 2)
    if nativeOffset ≤ midEntry.nativeOffset then
      table.binarySearch nativeOffset idx (count / 2)
    else
      table.binarySearch nativeOffset (idx + count / 2) (count - count / 2)
  else
    some idx
termination_by count

def findRegionEntry (table : JitcodeIonTable) (nativeOffset : Nat) : Option Nat := do
  let regions ← table.numRegions
  guard (regions > 0)
  if regions ≤ LINEAR_SEARCH_THRESHOLD then
    let previousEntry ← table.regionEntry 0
    table.linearSearch nativeOffset regions (regions - 1) 1 previousEntry
  else
    table.binarySearch nativeOffset 0 regions

section Write

variable {JSScript : Type} [DecidableEq JSScript]

def writeRuns (scriptList : List JSScript)
    : Nat → List (NativeToBytecode JSScript) → List Nat → CompactBufferWriter
      → Option (List Nat × CompactBufferWriter)
  | 0, _, _, _ => none
  | _ + 1, [], runOffsets, writer => some (runOffsets, writer)
  | rounds + 1, curEntry :: rest, runOffsets, writer => do
    let runLength := JitcodeRegionEntry.ExpectedRunLength curEntry rest
    let runOffsets := runOffsets ++ [uint32 writer.length]
    let writer ← JitcodeRegionEntry.WriteRun scriptList runLength curEntry rest writer
    writeRuns scriptList rounds ((curEntry :: rest).drop runLength) runOffsets writer

def WriteIonTable (endianness : Endianness) (scriptList : List JSScript)
    (entries : List (NativeToBytecode JSScript)) (writer : CompactBufferWriter) : Option (CompactBufferWriter × Nat × Nat) := do
  let (runOffsets, writer) ← writeRuns scriptList (entries.length + 1) entries [] writer
  let padding := 4 - writer.length % 4
  let padding := if padding = 4 then 0 else padding
  let writer := padding.fold (fun _ _ writer => writer.writeByte 0) writer
  let tableOffset := uint32 writer.length
  let writer := writer.writeNativeEndianUint32_t endianness (uint32 runOffsets.length)
  let writer := runOffsets.foldl (fun writer runOffset =>
    writer.writeNativeEndianUint32_t endianness (uint32 (tableOffset + 2 ^ 32 - runOffset))) writer
  return (writer, tableOffset, runOffsets.length)

end Write

end JitcodeIonTable

structure IonEntry (JSScript : Type) where
  regionTable : JitcodeIonTable
  scriptList : List JSScript

namespace IonEntry

variable {JSScript : Type}

def RegionAtAddr (entry : IonEntry JSScript) (ptrOffset : Nat) : Option JitcodeRegionEntry := do
  let regionIdx ← entry.regionTable.findRegionEntry ptrOffset
  entry.regionTable.regionEntry regionIdx

def callStackAtAddr (entry : IonEntry JSScript) (ptrOffset : Nat) : Option (List (JSScript × Nat)) := do
  let region ← entry.RegionAtAddr ptrOffset
  match ← region.scriptPcIterator with
  | [] => none
  | (scriptIdx, pcOffset) :: locations => do
    let pcOffset ← region.findPcOffset ptrOffset pcOffset
    ((scriptIdx, pcOffset) :: locations).mapM fun (scriptIdx, pcOffset) => do
      let script ← entry.scriptList[scriptIdx]?
      return (script, pcOffset)

end IonEntry

end SpiderMonkey
