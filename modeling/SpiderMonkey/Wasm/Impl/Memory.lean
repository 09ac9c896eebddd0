import SpiderMonkey.Jit.Impl.ProcessExecutableMemory
import SpiderMonkey.Lib.Overwrite

/-!
This module contains the instructions on the linear memory that an instance implements in the host. There is no result
when a byte outside of the memory or of a segment is accessed.
-/

namespace SpiderMonkey.Wasm

open Overwrite

def PageSize : Nat := 64 * 1024

structure Memory where
  bytes : List (BitVec 8)
  isShared : Bool
  pages : bytes.length % PageSize = 0
  length_lt : bytes.length < 2 ^ 32

inductive Trap where
  | UnalignedAccess
  | OutOfBounds
  | WaitNotAllowed
  | WaitInterrupted
  | WakeOverflow
  | OutOfMemory
deriving DecidableEq

namespace Memory

def volatileMemoryLength (mem : Memory) : UInt32 := UInt32.ofNat mem.bytes.length

def withRange (mem : Memory) (dst : Nat) (bytes : List (BitVec 8)) (h : dst + bytes.length ≤ mem.bytes.length) : Memory where
  bytes := overwrite mem.bytes dst bytes
  isShared := mem.isShared
  pages := by
    rw [length_overwrite h]
    exact mem.pages
  length_lt := by
    rw [length_overwrite h]
    exact mem.length_lt

def memmove (mem : Memory) (dst src len : Nat) : Option Memory :=
  if h : dst + len ≤ mem.bytes.length ∧ src + len ≤ mem.bytes.length then
    some (mem.withRange dst (slice mem.bytes src len) (by rw [length_slice h.2]; exact h.1))
  else none

def memset (mem : Memory) (dst : Nat) (value : UInt32) (len : Nat) : Option Memory :=
  if h : dst + len ≤ mem.bytes.length then
    some (mem.withRange dst (List.replicate len (BitVec.ofNat 8 value.toNat)) (by rw [List.length_replicate]; exact h))
  else none

def memcpy (mem : Memory) (dst : Nat) (data : List (BitVec 8)) (src len : Nat) : Option Memory :=
  if h : dst + len ≤ mem.bytes.length ∧ src + len ≤ data.length then
    some (mem.withRange dst (slice data src len) (by rw [length_slice h.2]; exact h.1))
  else none

def load (mem : Memory) (byteOffset size : Nat) : Option (BitVec (8 * size)) :=
  if byteOffset + size ≤ mem.bytes.length then
    some (BitVec.ofNat (8 * size) ((slice mem.bytes byteOffset size).foldr (fun b n => b.toNat + 256 * n) 0))
  else none

end Memory

open Memory

def WasmMemoryCopy (memMove : Memory → Nat → Nat → Nat → Option Memory) (mem : Memory) (memLen : UInt32)
    (dstByteOffset srcByteOffset len : UInt32) : Option (Except Trap Memory) :=
  let dstOffsetLimit := dstByteOffset.toUInt64 + len.toUInt64
  let srcOffsetLimit := srcByteOffset.toUInt64 + len.toUInt64
  if dstOffsetLimit > memLen.toUInt64 ∨ srcOffsetLimit > memLen.toUInt64 then some (.error .OutOfBounds)
  else (memMove mem dstByteOffset.toNat srcByteOffset.toNat len.toNat).map .ok

def memCopy (mem : Memory) (dstByteOffset srcByteOffset len : UInt32) : Option (Except Trap Memory) :=
  WasmMemoryCopy memmove mem mem.volatileMemoryLength dstByteOffset srcByteOffset len

def memCopyShared (mem : Memory) (dstByteOffset srcByteOffset len : UInt32) : Option (Except Trap Memory) :=
  WasmMemoryCopy memmove mem mem.volatileMemoryLength dstByteOffset srcByteOffset len

def WasmMemoryFill (memSet : Memory → Nat → UInt32 → Nat → Option Memory) (mem : Memory) (memLen : UInt32)
    (byteOffset value len : UInt32) : Option (Except Trap Memory) :=
  let offsetLimit := byteOffset.toUInt64 + len.toUInt64
  if offsetLimit > memLen.toUInt64 then some (.error .OutOfBounds)
  else (memSet mem byteOffset.toNat value len.toNat).map .ok

def memFill (mem : Memory) (byteOffset value len : UInt32) : Option (Except Trap Memory) :=
  WasmMemoryFill memset mem mem.volatileMemoryLength byteOffset value len

def memFillShared (mem : Memory) (byteOffset value len : UInt32) : Option (Except Trap Memory) :=
  WasmMemoryFill memset mem mem.volatileMemoryLength byteOffset value len

structure DataSegment where
  active : Bool
  bytes : List (BitVec 8)
  length_lt : bytes.length < 2 ^ 32

-- Take references to the passive data segments. One that has been dropped is not there.
def passiveDataSegments (dataSegments : List DataSegment) : List (Option DataSegment) :=
  dataSegments.map fun seg => if !seg.active then some seg else none

def dataDrop (passiveDataSegments : List (Option DataSegment)) (segIndex : Nat) : Option (List (Option DataSegment)) :=
  match passiveDataSegments[segIndex]? with
  | none => none
  | some none => some passiveDataSegments
  | some (some _) => some (passiveDataSegments.set segIndex none)

def memInit (passiveDataSegments : List (Option DataSegment)) (mem : Memory) (dstOffset srcOffset len : UInt32) (segIndex : Nat)
    : Option (Except Trap Memory) :=
  match passiveDataSegments[segIndex]? with
  | none => none
  | some none => if len = 0 ∧ srcOffset = 0 then some (.ok mem) else some (.error .OutOfBounds)
  | some (some seg) =>
    let segLen := UInt32.ofNat seg.bytes.length
    let memLen := mem.volatileMemoryLength
    let dstOffsetLimit := dstOffset.toUInt64 + len.toUInt64
    let srcOffsetLimit := srcOffset.toUInt64 + len.toUInt64
    if dstOffsetLimit > memLen.toUInt64 ∨ srcOffsetLimit > segLen.toUInt64 then some (.error .OutOfBounds)
    else (memcpy mem dstOffset.toNat seg.bytes srcOffset.toNat len.toNat).map .ok

inductive WaitResult where
  | Error
  | NotEqual
  | OK
  | TimedOut
deriving DecidableEq

structure FutexThread where
  canWait : Bool
  wait : Option Nat → WaitResult

def atomics_wait_impl (fx : FutexThread) (mem : Memory) (size byteOffset : Nat) (value : BitVec (8 * size))
    (timeout : Option Nat) : Option (Except Trap WaitResult) :=
  if !fx.canWait then some (.error .WaitNotAllowed)
  else
    match mem.load (byteOffset / size * size) size with
    | none => none
    | some loaded => if loaded ≠ value then some (.ok .NotEqual) else some (.ok (fx.wait timeout))

def sizeTypeBits : WordSize → Nat
  | .bits32 => 32
  | .bits64 => 64

-- The end of the access is computed in the machine's size type.
def PerformWait (sizeType : WordSize) (fx : FutexThread) (mem : Memory) (size : Nat) (byteOffset : UInt32)
    (value : BitVec (8 * size)) (timeout_ns : Int) : Option (Except Trap Nat) :=
  if byteOffset.toNat &&& (size - 1) ≠ 0 then some (.error .UnalignedAccess)
  else if (byteOffset.toNat + size) % 2 ^ sizeTypeBits sizeType > mem.volatileMemoryLength.toNat then some (.error .OutOfBounds)
  else
    let timeout := if timeout_ns ≥ 0 then some (timeout_ns.toNat / 1000) else none
    match atomics_wait_impl fx mem size byteOffset.toNat value timeout with
    | none => none
    | some (.error trap) => some (.error trap)
    | some (.ok .OK) => some (.ok 0)
    | some (.ok .NotEqual) => some (.ok 1)
    | some (.ok .TimedOut) => some (.ok 2)
    | some (.ok .Error) => some (.error .WaitInterrupted)

def wait_i32 (sizeType : WordSize) (fx : FutexThread) (mem : Memory) (byteOffset : UInt32) (value : BitVec 32)
    (timeout_ns : Int) : Option (Except Trap Nat) :=
  PerformWait sizeType fx mem 4 byteOffset value timeout_ns

def wait_i64 (sizeType : WordSize) (fx : FutexThread) (mem : Memory) (byteOffset : UInt32) (value : BitVec 64)
    (timeout_ns : Int) : Option (Except Trap Nat) :=
  PerformWait sizeType fx mem 8 byteOffset value timeout_ns

structure FutexWaiter where
  offset : UInt32
  isWaiting : Bool
deriving DecidableEq

def atomics_notify_impl (byteOffset : UInt32) : (count : Int) → List FutexWaiter → List FutexWaiter × Nat
  | _, [] => ([], 0)
  | count, c :: waiters =>
    if count = 0 then (c :: waiters, 0)
    else if c.offset ≠ byteOffset ∨ !c.isWaiting then
      let (waiters, woken) := atomics_notify_impl byteOffset count waiters
      (c :: waiters, woken)
    else
      let (waiters, woken) := atomics_notify_impl byteOffset (if count > 0 then count - 1 else count) waiters
      ({ c with isWaiting := false } :: waiters, woken + 1)

def wake (mem : Memory) (waiters : List FutexWaiter) (byteOffset : UInt32) (count : Int)
    : List FutexWaiter × Except Trap Nat :=
  if byteOffset &&& 3 ≠ 0 then (waiters, .error .UnalignedAccess)
  else if byteOffset ≥ mem.volatileMemoryLength then (waiters, .error .OutOfBounds)
  else
    let (waiters, woken) := atomics_notify_impl byteOffset count waiters
    if woken > 2 ^ 31 - 1 then (waiters, .error .WakeOverflow) else (waiters, .ok woken)

end SpiderMonkey.Wasm
