import Mathlib.Data.List.Forall2
import SpiderMonkey.Wasm.Impl.Memory

/-!
This module contains the theorem that the instructions on the linear memory do not touch bytes outside of it.
-/

namespace SpiderMonkey.Wasm

open Overwrite

variable {mem : Memory} {a b c : UInt32}

theorem toUInt64_add_gt_iff : a.toUInt64 + b.toUInt64 > c.toUInt64 ↔ c.toNat < a.toNat + b.toNat := by
  have ha := a.toNat_lt
  have hb := b.toNat_lt
  rw [gt_iff_lt, UInt64.lt_iff_toNat_lt, UInt64.toNat_add, UInt32.toNat_toUInt64, UInt32.toNat_toUInt64,
    UInt32.toNat_toUInt64, Nat.mod_eq_of_lt (by omega)]

theorem volatileMemoryLength_toNat (mem : Memory) : mem.volatileMemoryLength.toNat = mem.bytes.length :=
  UInt32.toNat_ofNat_of_lt' mem.length_lt

theorem outOfBounds_iff : a.toUInt64 + b.toUInt64 > mem.volatileMemoryLength.toUInt64
    ↔ mem.bytes.length < a.toNat + b.toNat := by
  rw [toUInt64_add_gt_iff, volatileMemoryLength_toNat]

def Performs (mem : Memory) (inBounds : Prop) (bytes : List (BitVec 8)) (result : Option (Except Trap Memory)) : Prop :=
  (inBounds → ∃ mem', result = some (.ok mem') ∧ mem'.bytes = bytes ∧ mem'.isShared = mem.isShared)
  ∧ (¬inBounds → result = some (.error .OutOfBounds))

theorem WasmMemoryCopy_performs (mem : Memory) (dst src len : UInt32)
    : Performs mem (dst.toNat + len.toNat ≤ mem.bytes.length ∧ src.toNat + len.toNat ≤ mem.bytes.length)
        (overwrite mem.bytes dst.toNat (slice mem.bytes src.toNat len.toNat))
        (WasmMemoryCopy Memory.memmove mem mem.volatileMemoryLength dst src len) := by
  unfold WasmMemoryCopy
  dsimp only
  constructor
  . intro h
    rw [if_neg (by rw [outOfBounds_iff, outOfBounds_iff]; omega)]
    unfold Memory.memmove
    rw [dif_pos h]
    exact ⟨_, rfl, rfl, rfl⟩
  . intro h
    rw [if_pos (by rw [outOfBounds_iff, outOfBounds_iff]; omega)]

theorem WasmMemoryFill_performs (mem : Memory) (dst value len : UInt32)
    : Performs mem (dst.toNat + len.toNat ≤ mem.bytes.length)
        (overwrite mem.bytes dst.toNat (List.replicate len.toNat (BitVec.ofNat 8 value.toNat)))
        (WasmMemoryFill Memory.memset mem mem.volatileMemoryLength dst value len) := by
  unfold WasmMemoryFill
  dsimp only
  constructor
  . intro h
    rw [if_neg (by rw [outOfBounds_iff]; omega)]
    unfold Memory.memset
    rw [dif_pos h]
    exact ⟨_, rfl, rfl, rfl⟩
  . intro h
    rw [if_pos (by rw [outOfBounds_iff]; omega)]

theorem memInit_performs {segments : List (Option DataSegment)}
    (hseg : segments[segIndex]? = some (some seg)) (mem : Memory) (dst src len : UInt32)
    : Performs mem (dst.toNat + len.toNat ≤ mem.bytes.length ∧ src.toNat + len.toNat ≤ seg.bytes.length)
        (overwrite mem.bytes dst.toNat (slice seg.bytes src.toNat len.toNat))
        (memInit segments mem dst src len segIndex) := by
  unfold memInit
  rw [hseg]
  dsimp only
  have hsegment : src.toUInt64 + len.toUInt64 > (UInt32.ofNat seg.bytes.length).toUInt64
      ↔ seg.bytes.length < src.toNat + len.toNat := by
    rw [toUInt64_add_gt_iff, UInt32.toNat_ofNat_of_lt' seg.length_lt]
  constructor
  . intro h
    rw [if_neg (by rw [outOfBounds_iff, hsegment]; omega)]
    unfold Memory.memcpy
    rw [dif_pos h]
    exact ⟨_, rfl, rfl, rfl⟩
  . intro h
    rw [if_pos (by rw [outOfBounds_iff, hsegment]; omega)]

theorem memInit_dropped {segments : List (Option DataSegment)}
    (hseg : segments[segIndex]? = some none) (mem : Memory) (dst src len : UInt32)
    : memInit segments mem dst src len segIndex
      = if src.toNat + len.toNat = 0 then some (.ok mem) else some (.error .OutOfBounds) := by
  unfold memInit
  rw [hseg]
  dsimp only
  apply if_congr _ rfl rfl
  rw [← UInt32.toNat_inj, ← UInt32.toNat_inj]
  show len.toNat = 0 ∧ src.toNat = 0 ↔ _
  omega

section Wait

variable (fx : FutexThread)

def valueAt (mem : Memory) (size byteOffset : Nat) : BitVec (8 * size) :=
  BitVec.ofNat (8 * size) ((slice mem.bytes byteOffset size).foldr (fun b n => b.toNat + 256 * n) 0)

theorem load_eq {size byteOffset : Nat} (h : byteOffset + size ≤ mem.bytes.length)
    : mem.load byteOffset size = some (valueAt mem size byteOffset) := by
  unfold Memory.load
  rw [if_pos h]
  rfl

def waited (mem : Memory) (size byteOffset : Nat) (value : BitVec (8 * size)) (timeout_ns : Int) : Except Trap Nat :=
  if fx.canWait = false then .error .WaitNotAllowed
  else if valueAt mem size byteOffset ≠ value then .ok 1
  else
    match fx.wait (if timeout_ns ≥ 0 then some (timeout_ns.toNat / 1000) else none) with
    | .OK => .ok 0
    | .NotEqual => .ok 1
    | .TimedOut => .ok 2
    | .Error => .error .WaitInterrupted

theorem PerformWait_eq (sizeType : WordSize) (mem : Memory) {k size : Nat} (hsize : size = 2 ^ k) (byteOffset : UInt32)
    (hwrap : byteOffset.toNat % size = 0 → byteOffset.toNat + size < 2 ^ sizeTypeBits sizeType)
    (value : BitVec (8 * size)) (timeout_ns : Int)
    : PerformWait sizeType fx mem size byteOffset value timeout_ns
      = if byteOffset.toNat % size ≠ 0 then some (.error .UnalignedAccess)
        else if mem.bytes.length < byteOffset.toNat + size then some (.error .OutOfBounds)
        else some (waited fx mem size byteOffset.toNat value timeout_ns) := by
  have halign : byteOffset.toNat &&& (size - 1) = byteOffset.toNat % size := by
    rw [hsize, Nat.and_two_pow_sub_one_eq_mod]
  unfold PerformWait
  rw [halign]
  split
  next => rfl
  next haligned =>
    rw [Nat.mod_eq_of_lt (hwrap (not_not.mp haligned)), volatileMemoryLength_toNat]
    split
    next => rfl
    next hbounds =>
      have haddress : byteOffset.toNat / size * size = byteOffset.toNat := by
        have := Nat.div_add_mod byteOffset.toNat size
        rw [Nat.mul_comm]
        omega
      unfold atomics_wait_impl waited
      rw [haddress, load_eq (Nat.le_of_not_lt hbounds)]
      cases fx.canWait with
      | false => rfl
      | true =>
        by_cases hvalue : valueAt mem size byteOffset.toNat = value
        . simp only [hvalue, ne_eq, not_true_eq_false, Bool.not_true, Bool.false_eq_true, ↓reduceIte]
          cases fx.wait _ <;> rfl
        . simp only [hvalue, ne_eq, not_false_eq_true, Bool.not_true, Bool.false_eq_true, ↓reduceIte]
          rfl

end Wait

section Wake

structure Woken (byteOffset : UInt32) (c c' : FutexWaiter) : Prop where
  offset : c.offset = byteOffset
  isWaiting : c.isWaiting = true
  eq : c' = { c with isWaiting := false }

def waitingAt (byteOffset : UInt32) (waiters : List FutexWaiter) : Nat :=
  waiters.countP fun c => c.offset = byteOffset && c.isWaiting

theorem atomics_notify_impl_waiters (byteOffset : UInt32) (count : Int) (waiters : List FutexWaiter)
    : List.Forall₂ (fun c c' => c' = c ∨ Woken byteOffset c c') waiters
        (atomics_notify_impl byteOffset count waiters).1 := by
  have hsame (waiters : List FutexWaiter) : List.Forall₂ (fun c c' => c' = c ∨ Woken byteOffset c c') waiters waiters :=
    List.forall₂_same.mpr fun c _ => .inl rfl
  induction waiters generalizing count with
  | nil => exact .nil
  | cons c waiters ih =>
    unfold atomics_notify_impl
    split
    next => exact hsame _
    next =>
      split
      next => exact .cons (.inl rfl) (ih count)
      next hwaits =>
        rw [not_or, not_not, Bool.not_eq_true, Bool.not_eq_false'] at hwaits
        exact .cons (.inr ⟨hwaits.1, hwaits.2, rfl⟩) (ih _)

theorem atomics_notify_impl_woken (byteOffset : UInt32) (count : Int) (waiters : List FutexWaiter)
    : (atomics_notify_impl byteOffset count waiters).2
      = if count < 0 then waitingAt byteOffset waiters else min count.toNat (waitingAt byteOffset waiters) := by
  unfold waitingAt
  induction waiters generalizing count with
  | nil => simp [atomics_notify_impl]
  | cons c waiters ih =>
    unfold atomics_notify_impl
    rw [List.countP_cons]
    split
    next hzero =>
      subst hzero
      rfl
    next hne =>
      split
      next hskip =>
        have hnot : ¬(decide (c.offset = byteOffset) && c.isWaiting) = true := by
          simp only [Bool.and_eq_true, decide_eq_true_eq, not_and]
          intro heq hwaits
          simp [heq, hwaits] at hskip
        rw [if_neg hnot, Nat.add_zero]
        exact ih count
      next hwaits =>
        rw [not_or, not_not, Bool.not_eq_true, Bool.not_eq_false'] at hwaits
        have hyes : (decide (c.offset = byteOffset) && c.isWaiting) = true := by
          rw [hwaits.2, Bool.and_true, decide_eq_true hwaits.1]
        dsimp only
        rw [if_pos hyes, ih]
        split_ifs <;> omega

theorem wake_eq (mem : Memory) (waiters : List FutexWaiter) (byteOffset : UInt32) (count : Int)
    : wake mem waiters byteOffset count = if byteOffset.toNat % 4 ≠ 0 then (waiters, .error .UnalignedAccess)
        else if mem.bytes.length < byteOffset.toNat + 4 then (waiters, .error .OutOfBounds)
        else
          let (waiters, woken) := atomics_notify_impl byteOffset count waiters
          if woken > 2 ^ 31 - 1 then (waiters, .error .WakeOverflow) else (waiters, .ok woken) := by
  have halign : byteOffset &&& 3 ≠ 0 ↔ byteOffset.toNat % 4 ≠ 0 := by
    rw [ne_eq, ← UInt32.toNat_inj, UInt32.toNat_and]
    show ¬byteOffset.toNat &&& (2 ^ 2 - 1) = 0 ↔ _
    rw [Nat.and_two_pow_sub_one_eq_mod]
  have hbounds : byteOffset ≥ mem.volatileMemoryLength ↔ mem.bytes.length ≤ byteOffset.toNat := by
    rw [ge_iff_le, UInt32.le_iff_toNat_le, volatileMemoryLength_toNat]
  have hpages : mem.bytes.length % (64 * 1024) = 0 := mem.pages
  unfold wake
  by_cases haligned : byteOffset.toNat % 4 ≠ 0
  . rw [if_pos (halign.mpr haligned), if_pos haligned]
  rw [if_neg (mt halign.mp haligned), if_neg haligned]
  apply if_congr _ rfl rfl
  rw [hbounds]
  omega

end Wake

-- What each instruction does with what it names. For waiting on a value the end of an aligned access must be one of the
-- size type.
structure StaysInBounds (mem : Memory) : Prop where
  memCopy : ∀ dst src len : UInt32,
    Performs mem (dst.toNat + len.toNat ≤ mem.bytes.length ∧ src.toNat + len.toNat ≤ mem.bytes.length)
      (overwrite mem.bytes dst.toNat (slice mem.bytes src.toNat len.toNat)) (memCopy mem dst src len)
  memCopyShared : ∀ dst src len, memCopyShared mem dst src len = Wasm.memCopy mem dst src len
  memFill : ∀ dst value len : UInt32,
    Performs mem (dst.toNat + len.toNat ≤ mem.bytes.length)
      (overwrite mem.bytes dst.toNat (List.replicate len.toNat (BitVec.ofNat 8 value.toNat))) (memFill mem dst value len)
  memFillShared : ∀ dst value len, memFillShared mem dst value len = Wasm.memFill mem dst value len
  memInit : ∀ (segments : List (Option DataSegment)) (segIndex : Nat) (seg : DataSegment) (dst src len : UInt32),
    segments[segIndex]? = some (some seg) →
    Performs mem (dst.toNat + len.toNat ≤ mem.bytes.length ∧ src.toNat + len.toNat ≤ seg.bytes.length)
      (overwrite mem.bytes dst.toNat (slice seg.bytes src.toNat len.toNat)) (memInit segments mem dst src len segIndex)
  memInit_dropped : ∀ (segments : List (Option DataSegment)) (segIndex : Nat) (dst src len : UInt32),
    segments[segIndex]? = some none →
    (dst.toNat ≤ mem.bytes.length ∧ src.toNat + len.toNat = 0 →
      Wasm.memInit segments mem dst src len segIndex = some (.ok mem))
    ∧ (0 < src.toNat + len.toNat → Wasm.memInit segments mem dst src len segIndex = some (.error .OutOfBounds))
  wait_i32 : ∀ (sizeType : WordSize) (fx : FutexThread) (byteOffset : UInt32) (value : BitVec 32) (timeout_ns : Int),
    (byteOffset.toNat % 4 = 0 → byteOffset.toNat + 4 < 2 ^ sizeTypeBits sizeType) →
    wait_i32 sizeType fx mem byteOffset value timeout_ns
      = if byteOffset.toNat % 4 ≠ 0 then some (.error .UnalignedAccess)
        else if mem.bytes.length < byteOffset.toNat + 4 then some (.error .OutOfBounds)
        else some (waited fx mem 4 byteOffset.toNat value timeout_ns)
  wait_i64 : ∀ (sizeType : WordSize) (fx : FutexThread) (byteOffset : UInt32) (value : BitVec 64) (timeout_ns : Int),
    (byteOffset.toNat % 8 = 0 → byteOffset.toNat + 8 < 2 ^ sizeTypeBits sizeType) →
    wait_i64 sizeType fx mem byteOffset value timeout_ns
      = if byteOffset.toNat % 8 ≠ 0 then some (.error .UnalignedAccess)
        else if mem.bytes.length < byteOffset.toNat + 8 then some (.error .OutOfBounds)
        else some (waited fx mem 8 byteOffset.toNat value timeout_ns)
  wake : ∀ (waiters : List FutexWaiter) (byteOffset : UInt32) (count : Int), ∃ waiters' woken,
    List.Forall₂ (fun c c' => c' = c ∨ Woken byteOffset c c') waiters waiters'
    ∧ woken = (if count < 0 then waitingAt byteOffset waiters else min count.toNat (waitingAt byteOffset waiters))
    ∧ wake mem waiters byteOffset count
      = if byteOffset.toNat % 4 ≠ 0 then (waiters, .error .UnalignedAccess)
        else if mem.bytes.length < byteOffset.toNat + 4 then (waiters, .error .OutOfBounds)
        else if woken > 2 ^ 31 - 1 then (waiters', .error .WakeOverflow)
        else (waiters', .ok woken)

theorem memory_staysInBounds (mem : Memory) : StaysInBounds mem where
  memCopy := WasmMemoryCopy_performs mem
  memCopyShared := fun _ _ _ => rfl
  memFill := WasmMemoryFill_performs mem
  memFillShared := fun _ _ _ => rfl
  memInit := fun _ _ _ dst src len hseg => memInit_performs hseg mem dst src len
  memInit_dropped := by
    intro segments segIndex dst src len hseg
    rw [memInit_dropped hseg]
    constructor
    . rintro ⟨_, hzero⟩
      rw [if_pos hzero]
    . intro hpos
      rw [if_neg (by omega)]
  wait_i32 := fun sizeType fx byteOffset value timeout_ns hwrap =>
    PerformWait_eq fx sizeType mem (k := 2) rfl byteOffset hwrap value timeout_ns
  wait_i64 := fun sizeType fx byteOffset value timeout_ns hwrap =>
    PerformWait_eq fx sizeType mem (k := 3) rfl byteOffset hwrap value timeout_ns
  wake := fun waiters byteOffset count =>
    ⟨_, _, atomics_notify_impl_waiters byteOffset count waiters, atomics_notify_impl_woken byteOffset count waiters,
      wake_eq mem waiters byteOffset count⟩

def emptyMemory : Memory := ⟨[], true, rfl, by decide⟩

theorem memFill_wait_of_emptyMemory
    : (memFill emptyMemory 1 0 0 = some (.error .OutOfBounds)
        ∧ ¬∃ a, (1 : UInt32).toNat ≤ a ∧ a < (1 : UInt32).toNat + (0 : UInt32).toNat ∧ emptyMemory.bytes.length ≤ a)
      ∧ ∀ value timeout_ns wait, wait_i32 .bits32 ⟨true, wait⟩ emptyMemory 0xfffffffc value timeout_ns = none := by
  refine ⟨⟨rfl, ?_⟩, ?_⟩
  . rintro ⟨a, hle, hlt, _⟩
    exact absurd (Nat.lt_of_le_of_lt hle hlt) (by decide)
  . intro value timeout_ns wait
    rfl

end SpiderMonkey.Wasm
