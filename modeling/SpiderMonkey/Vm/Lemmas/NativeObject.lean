import SpiderMonkey.Lib.OptionBind
import SpiderMonkey.Vm.Impl.NativeObject

/-!
This module contains what the operations on dense elements do to the slots: where the header is, and what follows it.
-/

namespace SpiderMonkey.Elements

open List
open Overwrite

theorem MOZ_ASSERT_of [Decidable p] (h : p) : MOZ_ASSERT p = some () := if_pos h

namespace ObjectElements

variable {h : ObjectElements} {n : Nat}

theorem shiftLeft_and_FlagsMask (x : BitVec 32) : (x <<< NumShiftedElementsShift) &&& FlagsMask = 0 := by
  apply BitVec.eq_of_getLsbD_eq
  intro i hi
  rw [BitVec.getLsbD_and, BitVec.getLsbD_shiftLeft]
  by_cases hlt : i < NumShiftedElementsShift
  . simp [hlt]
  have hmask : FlagsMask.getLsbD i = false := by
    revert hi hlt
    revert i
    decide
  rw [hmask, Bool.and_false]
  simp

theorem and_FlagsMask_shiftRight (x : BitVec 32) : (x &&& FlagsMask) >>> NumShiftedElementsShift = 0 := by
  apply BitVec.eq_of_getLsbD_eq
  intro i hi
  rw [BitVec.getLsbD_ushiftRight, BitVec.getLsbD_and]
  have hmask : FlagsMask.getLsbD (NumShiftedElementsShift + i) = false := by
    revert hi
    revert i
    decide
  rw [hmask, Bool.and_false]
  simp

theorem setNumShiftedElements_shiftRight (hn : n ≤ MaxShiftedElements)
    : (h.setNumShiftedElements n >>> NumShiftedElementsShift).toNat = n := by
  have hlt : n < 2048 := by
    unfold MaxShiftedElements NumShiftedElementsBits at hn
    omega
  unfold setNumShiftedElements
  rw [BitVec.ushiftRight_or_distrib, and_FlagsMask_shiftRight]
  unfold NumShiftedElementsShift NumShiftedElementsBits
  simp only [BitVec.ofNat_eq_ofNat, BitVec.or_zero, BitVec.toNat_ushiftRight, BitVec.toNat_shiftLeft,
    BitVec.toNat_ofNat, Nat.shiftLeft_eq, Nat.shiftRight_eq_div_pow]
  omega

theorem setNumShiftedElements_and (mask : BitVec 32) (hmask : FlagsMask &&& mask = mask)
    : h.setNumShiftedElements n &&& mask = h.flags &&& mask := by
  unfold setNumShiftedElements
  rw [← hmask, ← BitVec.and_assoc, BitVec.and_or_distrib_right, shiftLeft_and_FlagsMask, BitVec.and_assoc h.flags,
    BitVec.and_self, ← BitVec.and_assoc]
  simp

theorem and_FlagsMask_and (mask : BitVec 32) (hmask : FlagsMask &&& mask = mask)
    : h.flags &&& FlagsMask &&& mask = h.flags &&& mask := by
  rw [BitVec.and_assoc, hmask]

theorem flag_eq_zero {flags mask flag : BitVec 32} (hflag : mask &&& flag = flag) (h : flags &&& mask = 0)
    : flags &&& flag = 0 := by
  rw [← hflag, ← BitVec.and_assoc, h]
  exact BitVec.zero_and

theorem isCopyOnWrite_of_unshifted (hflags : h.flags &&& UnshiftedFlags = 0) : h.isCopyOnWrite = false :=
  decide_eq_false (not_not.mpr (flag_eq_zero (by decide) hflags))

theorem hasNonwritableArrayLength_of_unshifted (hflags : h.flags &&& UnshiftedFlags = 0)
    : h.hasNonwritableArrayLength = false :=
  decide_eq_false (not_not.mpr (flag_eq_zero (by decide) hflags))

theorem unshifted_of (hnonwritable : h.hasNonwritableArrayLength = false) (hcow : h.isCopyOnWrite = false)
    (hsealed : h.flags &&& SEALED = 0) (hfrozen : h.flags &&& FROZEN = 0) : h.flags &&& UnshiftedFlags = 0 := by
  have hnonwritable : h.flags &&& NONWRITABLE_ARRAY_LENGTH = 0 := not_not.mp (of_decide_eq_false hnonwritable)
  have hcow : h.flags &&& COPY_ON_WRITE = 0 := not_not.mp (of_decide_eq_false hcow)
  unfold UnshiftedFlags
  rw [BitVec.and_or_distrib_left, BitVec.and_or_distrib_left, BitVec.and_or_distrib_left, hnonwritable, hsealed, hfrozen,
    hcow]
  rfl

theorem and_eq_of_flags {flags flags' : BitVec 32} (hflags : flags' &&& FlagsMask = flags &&& FlagsMask)
    (mask : BitVec 32) (hmask : FlagsMask &&& mask = mask) : flags' &&& mask = flags &&& mask := by
  rw [← hmask, ← BitVec.and_assoc, ← BitVec.and_assoc, hflags]

theorem clear_and (flags : BitVec 32) {flag mask : BitVec 32} (hmask : ~~~flag &&& mask = mask)
    : flags &&& ~~~flag &&& mask = flags &&& mask := by
  rw [BitVec.and_assoc, hmask]

theorem clear_shiftRight (flags : BitVec 32)
    : (flags &&& ~~~COPY_ON_WRITE) >>> NumShiftedElementsShift = flags >>> NumShiftedElementsShift := by
  apply BitVec.eq_of_getLsbD_eq
  intro i _
  rw [BitVec.getLsbD_ushiftRight, BitVec.getLsbD_ushiftRight, BitVec.getLsbD_and]
  by_cases hi : i < NumShiftedElementsBits
  . have hset : (~~~COPY_ON_WRITE).getLsbD (NumShiftedElementsShift + i) = true := by
      revert hi
      revert i
      decide
    rw [hset, Bool.and_true]
  . rw [BitVec.getLsbD_of_ge flags _ (by unfold NumShiftedElementsShift NumShiftedElementsBits at *; omega),
      Bool.false_and]

theorem isCopyOnWrite_clear (flags : BitVec 32) : (flags &&& ~~~COPY_ON_WRITE) &&& COPY_ON_WRITE = 0 := by
  rw [BitVec.and_assoc, show ~~~COPY_ON_WRITE &&& COPY_ON_WRITE = 0 from rfl]
  exact BitVec.and_zero

theorem clearCopyOnWrite_eq (hcow : h.isCopyOnWrite = true)
    : h.clearCopyOnWrite = some { h with flags := h.flags &&& ~~~COPY_ON_WRITE } := by
  unfold clearCopyOnWrite
  rw [MOZ_ASSERT_of hcow]
  rfl

theorem hasNonwritableArrayLength_of_flags {h' : ObjectElements}
    (hflags : h'.flags &&& FlagsMask = h.flags &&& FlagsMask)
    : h'.hasNonwritableArrayLength = h.hasNonwritableArrayLength := by
  unfold hasNonwritableArrayLength
  rw [and_eq_of_flags hflags _ (by decide)]

theorem isCopyOnWrite_of_flags {h' : ObjectElements} (hflags : h'.flags &&& FlagsMask = h.flags &&& FlagsMask)
    : h'.isCopyOnWrite = h.isCopyOnWrite := by
  unfold isCopyOnWrite
  rw [and_eq_of_flags hflags _ (by decide)]

theorem numShiftedElements_le : h.numShiftedElements ≤ MaxShiftedElements := by
  unfold numShiftedElements MaxShiftedElements NumShiftedElementsShift NumShiftedElementsBits
  rw [BitVec.toNat_ushiftRight, Nat.shiftRight_eq_div_pow]
  omega

theorem numShiftedElements_clear (h : ObjectElements) : h.clearShiftedElements.numShiftedElements = 0 := by
  unfold numShiftedElements clearShiftedElements
  rw [and_FlagsMask_shiftRight]
  rfl

theorem isCopyOnWrite_clearShiftedElements (h : ObjectElements)
    : h.clearShiftedElements.isCopyOnWrite = h.isCopyOnWrite := by
  unfold isCopyOnWrite clearShiftedElements
  rw [and_FlagsMask_and _ (by decide)]

end ObjectElements

namespace NativeObject

variable {α : Type}

def place (obj : NativeObject α) (before : List (HeapSlot α)) (h : ObjectElements) (body : List (HeapSlot α))
    : NativeObject α :=
  { obj with slots := before ++ (h.slots ++ body), elements_ := before.length + VALUES_PER_HEADER }

variable {obj : NativeObject α} {before body : List (HeapSlot α)} {h h' : ObjectElements}

theorem fromElements_add (n : Nat) : fromElements (n + VALUES_PER_HEADER) = some n := by
  unfold fromElements
  rw [if_pos (Nat.le_add_left _ _), Nat.add_sub_cancel]

theorem length_slots : (h.slots : List (HeapSlot α)).length = VALUES_PER_HEADER := rfl

theorem length_place : (obj.place before h body).slots.length = before.length + (VALUES_PER_HEADER + body.length) := by
  unfold place
  rw [length_append, length_append, length_slots]

theorem headerAt_append {obj : NativeObject α} (heq : obj.slots = before ++ (h.slots ++ body))
    : obj.headerAt before.length = some h := by
  unfold headerAt
  rw [heq, List.getElem?_append_right (Nat.le_refl _), List.getElem?_append_right (Nat.le_add_right _ _), Nat.sub_self,
    Nat.add_sub_cancel_left]
  rfl

theorem MOZ_ASSERT_isExtensible (hextensible : obj.isExtensible = true)
    : MOZ_ASSERT ((obj.place before h body).isExtensible = true) = some () := MOZ_ASSERT_of hextensible

theorem storage_place (hstorage : obj.storage ≠ .emptyElements) : (obj.place before h body).storage ≠ .emptyElements :=
  hstorage

theorem fromElements_place : fromElements (obj.place before h body).elements_ = some before.length := fromElements_add _

theorem headerAt_place : (obj.place before h body).headerAt before.length = some h := headerAt_append rfl

theorem getElementsHeader_place : (obj.place before h body).getElementsHeader = some h := by
  unfold getElementsHeader
  rw [fromElements_place, some_bind, headerAt_place]

theorem getUnshiftedElementsHeader_place (hn : h.numShiftedElements = before.length)
    : (obj.place before h body).getUnshiftedElementsHeader = some 0 := by
  unfold getUnshiftedElementsHeader
  have hle : h.numShiftedElements ≤ (obj.place before h body).elements_ := by
    rw [hn]
    exact Nat.le_add_right _ _
  rw [getElementsHeader_place, some_bind, MOZ_ASSERT_of hle, hn]
  have hsub : (obj.place before h body).elements_ - before.length = 0 + VALUES_PER_HEADER := by
    unfold place
    dsimp only
    omega
  rw [hsub]
  exact fromElements_add 0

theorem overwrite_place (i : Nat) (slots : List (HeapSlot α))
    : ({ obj.place before h body with
        slots := overwrite (obj.place before h body).slots ((obj.place before h body).elements_ + i) slots })
      = obj.place before h (overwrite body i slots) := by
  have happend := overwrite_append_right (before ++ h.slots) body slots i
  rw [append_assoc, length_append, length_slots, append_assoc] at happend
  exact congrArg (fun slots => { obj.place before h body with slots }) happend

theorem drop_header (before : List (HeapSlot α)) (h : ObjectElements) (body : List (HeapSlot α))
    (hk : k ≤ before.length)
    : ∃ junk : List (HeapSlot α), junk.length = before.length - k
      ∧ (before ++ (h.slots ++ body)).drop (k + VALUES_PER_HEADER) = junk ++ body := by
  have hlength : (before ++ h.slots).length = before.length + VALUES_PER_HEADER := length_append
  refine ⟨(before ++ h.slots).drop (k + VALUES_PER_HEADER), ?_, ?_⟩
  . rw [length_drop, hlength]
    omega
  . rw [← append_assoc, drop_append_of_le_length (by omega)]

def undefineds (n : Nat) : List (HeapSlot α) := List.replicate n (.value .undefined)

theorem length_undefineds (n : Nat) : (undefineds n : List (HeapSlot α)).length = n := length_replicate

theorem take_undefineds (n count : Nat) (body : List (HeapSlot α))
    : (undefineds count ++ body).take (n + count) = undefineds count ++ body.take n := by
  have htake : (undefineds count ++ body).take ((undefineds count : List (HeapSlot α)).length + n) = _ :=
    take_length_add_append n
  rw [length_undefineds, Nat.add_comm] at htake
  exact htake

section Writes

variable (hstorage : obj.storage ≠ .emptyElements)
include hstorage

theorem writeSlots_eq {i : Nat} {slots : List (HeapSlot α)} (hle : i + slots.length ≤ obj.slots.length)
    : obj.writeSlots i slots = some { obj with slots := overwrite obj.slots i slots } := by
  unfold writeSlots
  rw [MOZ_ASSERT_of hle, MOZ_ASSERT_of hstorage]
  rfl

theorem memmove_eq {dst src count : Nat} (hdst : dst + count ≤ obj.slots.length) (hsrc : src + count ≤ obj.slots.length)
    : obj.memmove dst src count = some { obj with slots := overwrite obj.slots dst (slice obj.slots src count) } := by
  unfold memmove
  rw [MOZ_ASSERT_of hsrc, some_bind]
  split
  next hzero =>
    have hslice : slice obj.slots src count = [] := by
      rw [hzero]
      exact take_zero
    rw [hslice, overwrite_nil]
    rfl
  next =>
    apply writeSlots_eq hstorage
    rw [length_slice hsrc]
    exact hdst

theorem setHeaderAt_append (heq : obj.slots = before ++ (h.slots ++ body))
    : obj.setHeaderAt before.length h' = some { obj with slots := before ++ (h'.slots ++ body) } := by
  have happend := overwrite_append_right before (h.slots ++ body) h'.slots 0
  unfold setHeaderAt
  rw [writeSlots_eq hstorage]
  . rw [heq]
    exact congrArg (fun slots => some { obj with slots }) happend
  . rw [heq, length_append, length_append, length_slots, length_slots]
    omega

theorem setElementsHeader_place
    : (obj.place before h body).setElementsHeader h' = some (obj.place before h' body) := by
  exact setHeaderAt_append (storage_place hstorage) rfl

theorem writeSlots_place {i : Nat} {slots : List (HeapSlot α)} (hle : i + slots.length ≤ body.length)
    : (obj.place before h body).writeSlots ((obj.place before h body).elements_ + i) slots
      = some (obj.place before h (overwrite body i slots)) := by
  have helements : (obj.place before h body).elements_ = before.length + VALUES_PER_HEADER := rfl
  rw [writeSlots_eq (storage_place hstorage)]
  . rw [overwrite_place]
  . rw [length_place, helements]
    omega

theorem memmove_place {dst src count : Nat} (hdst : dst + count ≤ body.length) (hsrc : src + count ≤ body.length)
    : (obj.place before h body).memmove ((obj.place before h body).elements_ + dst)
        ((obj.place before h body).elements_ + src) count
      = some (obj.place before h (overwrite body dst (slice body src count))) := by
  have helements : (obj.place before h body).elements_ = before.length + VALUES_PER_HEADER := rfl
  have hslice := slice_append_right (before ++ h.slots) body src count
  rw [append_assoc, length_append, length_slots] at hslice
  have hslots : slice (obj.place before h body).slots ((obj.place before h body).elements_ + src) count
      = slice body src count := hslice
  rw [memmove_eq (storage_place hstorage), hslots, overwrite_place]
  . rw [length_place, helements]
    omega
  . rw [length_place, helements]
    omega

theorem memmove_header (hk : k ≤ before.length + body.length) (heq : obj.slots = before ++ (h.slots ++ body))
    : obj.memmove k before.length VALUES_PER_HEADER
      = some { obj with slots := obj.slots.take k ++ (h.slots ++ obj.slots.drop (k + VALUES_PER_HEADER)) } := by
  have hlength : obj.slots.length = before.length + (VALUES_PER_HEADER + body.length) := by
    rw [heq, length_append, length_append, length_slots]
  have hslice : slice obj.slots before.length VALUES_PER_HEADER = h.slots := by
    rw [heq]
    exact (slice_append_right before (h.slots ++ body) 0 VALUES_PER_HEADER).trans rfl
  rw [memmove_eq hstorage (by omega) (by omega), hslice]
  unfold overwrite
  rw [append_assoc]
  rfl

section

variable (hcow : h.isCopyOnWrite = false)
include hcow

theorem setDenseElement_place {i : Nat} (hi : i < h.initializedLength) (hle : h.initializedLength ≤ body.length)
    : (obj.place before h body).setDenseElement i v = some (obj.place before h (overwrite body i [.value v])) := by
  unfold setDenseElement
  rw [getElementsHeader_place, some_bind, MOZ_ASSERT_of hi, MOZ_ASSERT_of (by simp [hcow])]
  apply writeSlots_place hstorage
  rw [length_singleton]
  omega

variable (hextensible : obj.isExtensible = true)
include hextensible

theorem initDenseElement_place {i : Nat} (hi : i < h.initializedLength) (hle : h.initializedLength ≤ body.length)
    : (obj.place before h body).initDenseElement i v = some (obj.place before h (overwrite body i [.value v])) := by
  unfold initDenseElement
  rw [getElementsHeader_place, some_bind, MOZ_ASSERT_of hi, MOZ_ASSERT_of (by simp [hcow]),
    MOZ_ASSERT_isExtensible hextensible]
  apply writeSlots_place hstorage
  rw [length_singleton]
  omega

theorem initUndefined_place {start count : Nat} (hcount : start + count ≤ h.initializedLength)
    (hle : h.initializedLength ≤ body.length)
    : initUndefined start count (obj.place before h body)
      = some (obj.place before h (overwrite body start (undefineds count))) := by
  induction count with
  | zero =>
    rw [show undefineds 0 = ([] : List (HeapSlot α)) from rfl, overwrite_nil]
    rfl
  | succ count ih =>
    have hlength := length_undefineds (α := α) count
    have habove : overwrite (overwrite body start (undefineds count)) (start + count) [HeapSlot.value Value.undefined]
        = overwrite body start (undefineds (count + 1)) := by
      have happend : overwrite (overwrite body start (undefineds count))
          (start + (undefineds count : List (HeapSlot α)).length) [HeapSlot.value Value.undefined] = _ :=
        overwrite_overwrite_above (by rw [hlength, length_singleton]; omega)
      rw [hlength] at happend
      rw [happend]
      exact congrArg (overwrite body start) replicate_succ'.symm
    unfold initUndefined
    rw [ih (by omega), some_bind, initDenseElement_place hstorage hcow hextensible (by omega), habove]
    rw [length_overwrite (by omega)]
    exact hle

theorem setDenseInitializedLength_place (hn : n ≤ h.capacity)
    : (obj.place before h body).setDenseInitializedLength n
      = some (obj.place before { h with initializedLength := n } body) := by
  unfold setDenseInitializedLength
  rw [MOZ_ASSERT_isExtensible hextensible, some_bind, getElementsHeader_place, some_bind, MOZ_ASSERT_of hn,
    MOZ_ASSERT_of (by simp [hcow])]
  exact setElementsHeader_place hstorage

end

theorem moveElement_place (hdst : dst < body.length) (hsrc : src < body.length)
    : (obj.place before h body).moveElement dst src
      = some (obj.place before h (overwrite body dst (slice body src 1))) :=
  memmove_place hstorage hdst hsrc

theorem moveUp_place {dst src count : Nat} (hlt : dst < src) (hsrc : src + count ≤ body.length)
    : moveUp dst src count (obj.place before h body)
      = some (obj.place before h (overwrite body dst (slice body src count))) := by
  induction count with
  | zero =>
    rw [show slice body src 0 = [] from take_zero, overwrite_nil]
    rfl
  | succ count ih =>
    have hlength := length_slice (show src + count ≤ body.length by omega)
    have hone := length_slice (show src + count + 1 ≤ body.length by omega)
    have hover := length_overwrite (show dst + (slice body src count).length ≤ body.length by omega)
    unfold moveUp
    rw [ih (by omega), some_bind, moveElement_place hstorage (by omega) (by omega),
      slice_overwrite (by omega) (.inl (by omega)), slice_add]
    have habove : overwrite (overwrite body dst (slice body src count)) (dst + (slice body src count).length)
        (slice body (src + count) 1) = _ := overwrite_overwrite_above (by omega)
    rw [hlength] at habove
    rw [habove]

theorem moveDown_place {dst src count : Nat} (hle : src ≤ dst) (hdst : dst + count ≤ body.length)
    : moveDown dst src count (obj.place before h body)
      = some (obj.place before h (overwrite body dst (slice body src count))) := by
  induction count generalizing body with
  | zero =>
    rw [show slice body src 0 = [] from take_zero, overwrite_nil]
    rfl
  | succ count ih =>
    have hlength := length_slice (show src + count ≤ body.length by omega)
    have hone := length_slice (show src + count + 1 ≤ body.length by omega)
    have hover := length_overwrite (show dst + count + (slice body (src + count) 1).length ≤ body.length by omega)
    unfold moveDown
    rw [moveElement_place hstorage (by omega) (by omega), some_bind, ih (by omega),
      slice_overwrite (by omega) (.inr (by omega)), slice_add]
    have hbelow : overwrite (overwrite body (dst + (slice body src count).length) (slice body (src + count) 1)) dst
        (slice body src count) = _ := overwrite_overwrite_below (by omega)
    rw [hlength] at hbelow
    rw [hbelow]

theorem moveDenseElements_place (barrier : Bool) {dst src count : Nat} (hcow : h.isCopyOnWrite = false)
    (hextensible : obj.isExtensible = true) (hdst : dst + count ≤ h.capacity) (hcapacity : h.capacity ≤ body.length)
    (hsrc : src + count ≤ h.initializedLength) (hle : h.initializedLength ≤ h.capacity)
    : (obj.place before h body).moveDenseElements barrier dst src count
      = some (obj.place before h (overwrite body dst (slice body src count))) := by
  unfold moveDenseElements
  rw [getElementsHeader_place, some_bind, MOZ_ASSERT_of hdst, some_bind, MOZ_ASSERT_of hsrc, MOZ_ASSERT_of (by simp [hcow]),
    MOZ_ASSERT_isExtensible hextensible]
  split
  next =>
    split
    next hlt => exact moveUp_place hstorage hlt (by omega)
    next hlt => exact moveDown_place hstorage (by omega) (by omega)
  next => exact memmove_place hstorage (by omega) (by omega)

theorem moveToFront_place (barrier : Bool) (before junk body : List (HeapSlot α))
    (hcow : h.isCopyOnWrite = false) (hextensible : obj.isExtensible = true) (hinitialized : h.initializedLength = initLength + junk.length)
    (hle : h.initializedLength ≤ h.capacity) (hcapacity : h.capacity ≤ (junk ++ body).length)
    : (do
        let obj ← initUndefined 0 junk.length (obj.place before h (junk ++ body))
        let obj ← obj.moveDenseElements barrier 0 junk.length initLength
        obj.setDenseInitializedLength initLength)
      = some (obj.place before { h with initializedLength := initLength }
          (body.take initLength ++ (undefineds junk.length ++ body).drop initLength)) := by
  rw [length_append] at hcapacity
  have hlength : (undefineds junk.length ++ body : List (HeapSlot α)).length = junk.length + body.length := by
    rw [length_append, length_undefineds]
  have hfront : overwrite (junk ++ body) 0 (undefineds junk.length) = undefineds junk.length ++ body :=
    overwrite_front (length_undefineds _).symm body
  have hinit : initUndefined 0 junk.length (obj.place before h (junk ++ body)) = some (obj.place before h _) :=
    initUndefined_place hstorage hcow hextensible (by omega) (by rw [length_append]; omega)
  have hmove : (obj.place before h (undefineds junk.length ++ body)).moveDenseElements barrier 0 junk.length initLength
      = some (obj.place before h _) :=
    moveDenseElements_place hstorage barrier hcow hextensible (by omega) (by omega) (by omega) hle
  have hslice := slice_append_right (undefineds junk.length) body 0 initLength
  rw [length_undefineds, Nat.add_zero] at hslice
  have hslice : slice (undefineds junk.length ++ body) junk.length initLength = body.take initLength := hslice
  have htake : (body.take initLength).length = initLength := by
    rw [length_take]
    omega
  have hover : overwrite (undefineds junk.length ++ body) 0 (body.take initLength)
      = body.take initLength ++ (undefineds junk.length ++ body).drop initLength := by
    unfold overwrite
    rw [htake, Nat.zero_add]
    rfl
  rw [hinit, some_bind, hfront, hmove, some_bind, hslice, hover]
  exact setDenseInitializedLength_place hstorage hcow hextensible (by omega)

theorem moveShiftedElements_place (barrier : Bool) (hextensible : obj.isExtensible = true) (hcow : h.isCopyOnWrite = false)
    (hshifted : h.numShiftedElements = before.length) (hle : h.initializedLength ≤ h.capacity)
    (hcapacity : h.capacity ≤ body.length) (hpos : before ≠ [])
    : (obj.place before h body).moveShiftedElements barrier
      = some (obj.place [] { h.clearShiftedElements with capacity := h.capacity + before.length }
          (body.take h.initializedLength ++ (undefineds before.length ++ body).drop h.initializedLength)) := by
  have hlt : before.length > 0 := length_pos_iff.mpr hpos
  obtain ⟨junk, hjunk, hdrop⟩ := drop_header before h body (Nat.zero_le before.length)
  have hmemmove := memmove_header (show (obj.place before h body).storage ≠ _ from hstorage) (Nat.zero_le _) rfl
  rw [show (obj.place before h body).slots = before ++ (h.slots ++ body) from rfl, hdrop, take_zero] at hmemmove
  unfold moveShiftedElements
  simp only [MOZ_ASSERT_isExtensible hextensible, fromElements_place,
    headerAt_place, hshifted, MOZ_ASSERT_of hlt, getUnshiftedElementsHeader_place hshifted, hmemmove,
    Option.bind_eq_bind, Option.bind_some]
  generalize hobj1 : NativeObject.mk _ _ _ _ _ = obj1
  have hstorage1 : obj1.storage ≠ .emptyElements := by
    rw [← hobj1]
    exact hstorage
  have hslots1 : obj1.slots = [] ++ (h.slots ++ (junk ++ body)) := by
    rw [← hobj1]
  rw [show obj1.headerAt 0 = some h from headerAt_append hslots1, Option.bind_some]
  obtain ⟨h1, hh1⟩ : ∃ h1 : ObjectElements, h1 = {
      h.clearShiftedElements with
      capacity := h.capacity + before.length
      initializedLength := h.initializedLength + before.length
    } := ⟨_, rfl⟩
  have hset : obj1.setHeaderAt 0 h1 = some { obj1 with slots := [] ++ (h1.slots ++ (junk ++ body)) } :=
    setHeaderAt_append hstorage1 hslots1
  have hplace : { obj1 with slots := [] ++ (h1.slots ++ (junk ++ body)), elements_ := 0 + VALUES_PER_HEADER }
      = obj.place [] h1 (junk ++ body) := by
    rw [← hobj1]
    rfl
  have hcow1 : h1.isCopyOnWrite = false := by
    rw [hh1]
    exact (ObjectElements.isCopyOnWrite_clearShiftedElements h).trans hcow
  have hfront := moveToFront_place hstorage barrier [] junk body hcow1 hextensible
    (show h1.initializedLength = h.initializedLength + junk.length by rw [hh1, hjunk]; rfl)
    (by rw [hh1]; exact Nat.add_le_add_right hle _)
    (by rw [hh1, length_append]; dsimp only; omega)
  rw [hjunk, Nat.sub_zero, Option.bind_eq_bind] at hfront
  show ((obj1.setHeaderAt 0 { h.clearShiftedElements with
    initializedLength := h.initializedLength + before.length, capacity := h.capacity + before.length }).bind _) = _
  rw [← hh1, hset, Option.bind_some, hplace]
  apply hfront.trans
  rw [hh1]
  rfl

end Writes

structure Good (obj : NativeObject α) (before : List (HeapSlot α)) (h : ObjectElements) (body : List (HeapSlot α))
    : Prop where
  numShifted_eq : h.numShiftedElements = before.length
  initializedLength_le : h.initializedLength ≤ h.capacity
  capacity_le : h.capacity ≤ body.length
  allocated_le : before.length + VALUES_PER_HEADER + body.length ≤ MAX_DENSE_ELEMENTS_ALLOCATION
  of_shifted : before ≠ [] → obj.isExtensible = true ∧ h.flags &&& UnshiftedFlags = 0
  of_isExtensible : obj.isExtensible = true → h.flags &&& SEALED = 0 ∧ h.flags &&& FROZEN = 0
  of_emptyElements : obj.storage = .emptyElements → before = [] ∧ h.capacity = 0

-- There are as many slots, the capacity is as large as it was together with the shifted elements, and the rest of the
-- header is the same.
structure Keeps (before : List (HeapSlot α)) (h : ObjectElements) (body before' : List (HeapSlot α))
    (h' : ObjectElements) (body' : List (HeapSlot α)) : Prop where
  slots : before'.length + body'.length = before.length + body.length
  capacity : before'.length + h'.capacity = before.length + h.capacity
  length : h'.length = h.length
  flags : h'.flags &&& FlagsMask = h.flags &&& FlagsMask

structure Same (before : List (HeapSlot α)) (h : ObjectElements) (body before' : List (HeapSlot α))
    (h' : ObjectElements) (body' : List (HeapSlot α)) : Prop extends Keeps before h body before' h' body' where
  elements : body'.take h'.initializedLength = body.take h.initializedLength
  initializedLength : h'.initializedLength = h.initializedLength

section

variable {before' before'' body' body'' : List (HeapSlot α)} {h'' : ObjectElements}

theorem Keeps.trans (hk : Keeps before h body before' h' body') (hk' : Keeps before' h' body' before'' h'' body'')
    : Keeps before h body before'' h'' body'' where
  slots := hk'.slots.trans hk.slots
  capacity := hk'.capacity.trans hk.capacity
  length := hk'.length.trans hk.length
  flags := hk'.flags.trans hk.flags

theorem Same.refl : Same before h body before h body := ⟨⟨rfl, rfl, rfl, rfl⟩, rfl, rfl⟩

theorem Same.trans (hs : Same before h body before' h' body') (hs' : Same before' h' body' before'' h'' body'')
    : Same before h body before'' h'' body'' where
  toKeeps := hs.toKeeps.trans hs'.toKeeps
  elements := hs'.elements.trans hs.elements
  initializedLength := hs'.initializedLength.trans hs.initializedLength

theorem Keeps.unshifted (hk : Keeps before h body before' h' body') (hflags : h.flags &&& UnshiftedFlags = 0)
    : h'.flags &&& UnshiftedFlags = 0 :=
  (ObjectElements.and_eq_of_flags hk.flags _ (by decide)).trans hflags

end

namespace Good

variable (hg : obj.Good before h body)
include hg

theorem numShifted_le : before.length ≤ MaxShiftedElements := by
  rw [← hg.numShifted_eq]
  exact ObjectElements.numShiftedElements_le

theorem keep (hshifted : h'.numShiftedElements = before'.length)
    (hle : h'.initializedLength ≤ h'.capacity) (hcapacity : h'.capacity ≤ body'.length)
    (hslots : before'.length + body'.length = before.length + body.length) (hstorage : obj.storage ≠ .emptyElements)
    (hkeep : ∀ mask, FlagsMask &&& mask = mask → h'.flags &&& mask = h.flags &&& mask)
    (hflags : before' ≠ [] → obj.isExtensible = true ∧ h.flags &&& UnshiftedFlags = 0) : obj.Good before' h' body' where
  numShifted_eq := hshifted
  initializedLength_le := hle
  capacity_le := hcapacity
  allocated_le := by
    have hallocated := hg.allocated_le
    omega
  of_shifted hne := ⟨(hflags hne).1, (hkeep _ (by decide)).trans (hflags hne).2⟩
  of_isExtensible hextensible :=
    ⟨(hkeep _ (by decide)).trans (hg.of_isExtensible hextensible).1,
      (hkeep _ (by decide)).trans (hg.of_isExtensible hextensible).2⟩
  of_emptyElements hempty := absurd hempty hstorage

theorem storage_ne_of_pos (hpos : 0 < h.capacity) : obj.storage ≠ .emptyElements := by
  intro hempty
  rw [(hg.of_emptyElements hempty).2] at hpos
  exact Nat.lt_irrefl 0 hpos

theorem storage_ne (hpos : before ≠ []) : obj.storage ≠ .emptyElements := fun h => hpos (hg.of_emptyElements h).1

theorem moveShiftedElements (barrier : Bool) (hpos : before ≠ [])
    : ∃ h' body', (obj.place before h body).moveShiftedElements barrier = some (obj.place [] h' body')
      ∧ obj.Good [] h' body' ∧ Same before h body [] h' body' := by
  obtain ⟨hextensible, hflags⟩ := hg.of_shifted hpos
  have hmove := moveShiftedElements_place (hg.storage_ne hpos) barrier hextensible
    (ObjectElements.isCopyOnWrite_of_unshifted hflags) hg.numShifted_eq hg.initializedLength_le hg.capacity_le hpos
  have hle := hg.initializedLength_le
  have hcapacity := hg.capacity_le
  have hbody : (body.take h.initializedLength ++ (undefineds before.length ++ body).drop h.initializedLength).length
      = before.length + body.length := by
    rw [length_append, length_take, length_drop, length_append, length_undefineds]
    omega
  have htake : (body.take h.initializedLength).length = h.initializedLength := by
    rw [length_take]
    omega
  refine ⟨_, _, hmove, ?_, ?_⟩
  . refine hg.keep (ObjectElements.numShiftedElements_clear h) (Nat.le_trans hle (Nat.le_add_right _ _)) ?_ ?_
      (hg.storage_ne hpos) ObjectElements.and_FlagsMask_and fun hne => absurd rfl hne
    . rw [hbody]
      dsimp only
      omega
    . rw [hbody, length_nil, Nat.zero_add]
  refine ⟨⟨?_, ?_, rfl, ?_⟩, ?_, rfl⟩
  . rw [hbody, length_nil, Nat.zero_add]
  . rw [length_nil, Nat.zero_add]
    exact Nat.add_comm _ _
  . exact ObjectElements.and_FlagsMask_and _ (by decide)
  have happend : (body.take h.initializedLength ++ (undefineds before.length ++ body).drop h.initializedLength).take
      (body.take h.initializedLength).length = body.take h.initializedLength := take_left
  rw [htake] at happend
  exact happend

theorem maybeMoveShiftedElements (barrier : Bool) (hpos : before ≠ [])
    : ∃ before' h' body', (obj.place before h body).maybeMoveShiftedElements barrier = some (obj.place before' h' body')
      ∧ obj.Good before' h' body' ∧ Same before h body before' h' body'
      ∧ before'.length = if h.capacity < h.numAllocatedElements / 3 then 0 else before.length := by
  unfold NativeObject.maybeMoveShiftedElements
  have hshifted : h.numShiftedElements > 0 := by
    rw [hg.numShifted_eq]
    exact length_pos_iff.mpr hpos
  rw [MOZ_ASSERT_isExtensible (hg.of_shifted hpos).1, some_bind, getElementsHeader_place, some_bind, MOZ_ASSERT_of hshifted,
    some_bind]
  split
  next =>
    obtain ⟨h', body', hmove, hg', hsame⟩ := hg.moveShiftedElements barrier hpos
    exact ⟨[], h', body', hmove, hg', hsame, rfl⟩
  next => exact ⟨before, h, body, rfl, hg, .refl, rfl⟩

theorem addShiftedElements {count : Nat} (hstorage : obj.storage ≠ .emptyElements)
    (hcount : count < h.initializedLength) (hflags : h.flags &&& UnshiftedFlags = 0)
    (hmax : before.length + count ≤ MaxShiftedElements) (hextensible : obj.isExtensible = true)
    : ∃ before' h', before'.length = before.length + count
      ∧ (obj.place before h body).addShiftedElements count = some (obj.place before' h' (body.drop count))
      ∧ obj.Good before' h' (body.drop count) ∧ h'.initializedLength = h.initializedLength - count
      ∧ Keeps before h body before' h' (body.drop count) := by
  have hle := hg.initializedLength_le
  have hcapacity := hg.capacity_le
  obtain ⟨h', hh'⟩ : ∃ h' : ObjectElements, h' = {
      h with
      flags := h.setNumShiftedElements (before.length + count)
      capacity := h.capacity - count
      initializedLength := h.initializedLength - count
    } := ⟨_, rfl⟩
  have hadd : h.addShiftedElements count = some h' := by
    unfold ObjectElements.addShiftedElements
    rw [hg.numShifted_eq, MOZ_ASSERT_of (by omega), MOZ_ASSERT_of hcount, MOZ_ASSERT_of hflags, hh']
    simp only [some_bind]
    rw [MOZ_ASSERT_of hmax]
    rfl
  have hfrom' : fromElements (before.length + VALUES_PER_HEADER + count) = some (before.length + count) := by
    rw [Nat.add_right_comm]
    exact fromElements_add _
  have hset : (obj.place before h body).setHeaderAt before.length h' = some (obj.place before h' body) :=
    setHeaderAt_append (storage_place hstorage) rfl
  have hdrop : (before ++ (h'.slots ++ body)).drop (before.length + count + VALUES_PER_HEADER) = body.drop count := by
    have hlength : (before ++ h'.slots).length = before.length + VALUES_PER_HEADER := length_append
    rw [← append_assoc, Nat.add_right_comm, ← hlength, ← drop_drop, drop_left]
  obtain ⟨obj1, hobj1⟩ : ∃ obj1 : NativeObject α, obj1
      = { obj.place before h' body with elements_ := before.length + VALUES_PER_HEADER + count } := ⟨_, rfl⟩
  have hslots : obj1.slots = before ++ (h'.slots ++ body) := by
    rw [hobj1]
    rfl
  have hmemmove : obj1.memmove (before.length + count) before.length VALUES_PER_HEADER = some _ :=
    memmove_header (by rw [hobj1]; exact hstorage) (by omega) hslots
  rw [hslots, hdrop, hobj1] at hmemmove
  have hbefore : ((before ++ (h'.slots ++ body)).take (before.length + count)).length = before.length + count := by
    rw [length_take, length_append, length_append]
    omega
  have hshifted : h'.numShiftedElements = before.length + count := by
    rw [hh']
    exact ObjectElements.setNumShiftedElements_shiftRight hmax
  have hkeep (mask : BitVec 32) (hmask : FlagsMask &&& mask = mask) : h'.flags &&& mask = h.flags &&& mask := by
    rw [hh']
    exact ObjectElements.setNumShiftedElements_and mask hmask
  refine ⟨(before ++ (h'.slots ++ body)).take (before.length + count), h', hbefore, ?_, ?_, ?_, ?_, ?_, ?_, ?_⟩
  . unfold NativeObject.addShiftedElements
    rw [fromElements_place]
    simp only [headerAt_place, hadd, hset, some_bind]
    rw [show (obj.place before h' body).elements_ = before.length + VALUES_PER_HEADER from rfl, hfrom', some_bind]
    apply hmemmove.trans
    unfold place
    rw [hbefore, Nat.add_right_comm]
  . refine hg.keep (hshifted.trans hbefore.symm) ?_ ?_ ?_ hstorage hkeep fun _ => ⟨hextensible, hflags⟩
    . rw [hh']
      dsimp only
      omega
    . rw [hh', length_drop]
      dsimp only
      omega
    . rw [hbefore, length_drop]
      omega
  . rw [hh']
  . rw [hbefore, length_drop]
    omega
  . rw [hbefore, hh']
    dsimp only
    omega
  . rw [hh']
  . exact hkeep _ (BitVec.and_self)

theorem shiftDenseElementsUnchecked (barrier : Bool) {count : Nat} (hpos : count > 0)
    (hcount : count < h.initializedLength) (hflags : h.flags &&& UnshiftedFlags = 0)
    (hmax : count ≤ MaxShiftedElements) (hextensible : obj.isExtensible = true)
    : ∃ before' h' body', (obj.place before h body).shiftDenseElementsUnchecked barrier count
        = some (obj.place before' h' body')
      ∧ obj.Good before' h' body' ∧ h'.initializedLength = h.initializedLength - count
      ∧ body'.take h'.initializedLength = (body.take h.initializedLength).drop count
      ∧ Keeps before h body before' h' body'
      ∧ (before.length + count ≤ MaxShiftedElements → before'.length = before.length + count) := by
  have hstorage := hg.storage_ne_of_pos (Nat.lt_of_lt_of_le (Nat.zero_lt_of_lt hcount) hg.initializedLength_le)
  unfold NativeObject.shiftDenseElementsUnchecked
  rw [MOZ_ASSERT_isExtensible hextensible, some_bind, getElementsHeader_place, some_bind, MOZ_ASSERT_of hpos,
    MOZ_ASSERT_of hcount, hg.numShifted_eq, some_bind]
  by_cases hmany : before.length + count > MaxShiftedElements
  . have hne : before ≠ [] := by
      rintro rfl
      rw [length_nil] at hmany
      omega
    obtain ⟨h1, body1, hmove, hg1, hsame⟩ := hg.moveShiftedElements barrier hne
    obtain ⟨before', h', hbefore', hadd, hg', hlength, hkeeps⟩ := hg1.addShiftedElements hstorage
      (hsame.initializedLength ▸ hcount) (hsame.unshifted hflags) (by rw [length_nil]; omega) hextensible
    rw [if_pos hmany, hmove]
    refine ⟨before', h', body1.drop count, hadd, hg', ?_, ?_, hsame.toKeeps.trans hkeeps, ?_⟩
    . rw [hlength, hsame.initializedLength]
    . rw [hlength, ← hsame.elements, drop_take]
    . intro hle
      exact absurd hmany (Nat.not_lt.mpr hle)
  . obtain ⟨before', h', hbefore', hadd, hg', hlength, hkeeps⟩ := hg.addShiftedElements hstorage hcount hflags
      (Nat.not_lt.mp hmany) hextensible
    rw [if_neg hmany]
    refine ⟨before', h', body.drop count, hadd, hg', hlength, ?_, hkeeps, fun _ => hbefore'⟩
    rw [hlength, drop_take]

theorem unshifted (hnonwritable : h.hasNonwritableArrayLength = false) (hcow : h.isCopyOnWrite = false)
    (hextensible : obj.isExtensible = true) : h.flags &&& UnshiftedFlags = 0 := by
  obtain ⟨hsealed, hfrozen⟩ := hg.of_isExtensible hextensible
  exact ObjectElements.unshifted_of hnonwritable hcow hsealed hfrozen

theorem tryShiftDenseElements (barrier : Bool) {count : Nat} (hpos : count > 0) (hcount : count ≤ h.initializedLength)
    (hextensible : obj.isExtensible = true)
    : (obj.place before h body).tryShiftDenseElements barrier count = some (false, obj.place before h body)
      ∨ ∃ before' h' body', (obj.place before h body).tryShiftDenseElements barrier count
          = some (true, obj.place before' h' body')
        ∧ obj.Good before' h' body' ∧ body'.take h'.initializedLength = (body.take h.initializedLength).drop count
        ∧ Keeps before h body before' h' body' := by
  unfold NativeObject.tryShiftDenseElements
  rw [MOZ_ASSERT_isExtensible hextensible, some_bind, getElementsHeader_place, some_bind]
  split
  next => exact .inl rfl
  next hnot =>
    rw [not_or, not_or, not_or, Bool.not_eq_true, Bool.not_eq_true] at hnot
    obtain ⟨hne, hmax, hcow, hnonwritable⟩ := hnot
    obtain ⟨before', h', body', hshift, hg', _, helements, hkeeps, _⟩ := hg.shiftDenseElementsUnchecked barrier hpos
      (by omega) (hg.unshifted hnonwritable hcow hextensible) (by omega) hextensible
    rw [hshift]
    exact .inr ⟨before', h', body', rfl, hg', helements, hkeeps⟩

theorem of_length (hlength : body'.length = body.length) : obj.Good before h body' where
  numShifted_eq := hg.numShifted_eq
  initializedLength_le := hg.initializedLength_le
  capacity_le := hlength ▸ hg.capacity_le
  allocated_le := hlength ▸ hg.allocated_le
  of_shifted := hg.of_shifted
  of_isExtensible := hg.of_isExtensible
  of_emptyElements := hg.of_emptyElements

theorem of_initializedLength (hn : n ≤ h.capacity)
    : obj.Good before { h with initializedLength := n } body where
  numShifted_eq := hg.numShifted_eq
  initializedLength_le := hn
  capacity_le := hg.capacity_le
  allocated_le := hg.allocated_le
  of_shifted := hg.of_shifted
  of_isExtensible := hg.of_isExtensible
  of_emptyElements := hg.of_emptyElements

theorem unshiftShiftedElements {count : Nat} (hpos : count > 0) (hcount : count ≤ before.length)
    : ∃ before' h' junk, junk.length = count
      ∧ (obj.place before h body).unshiftShiftedElements count = some (obj.place before' h' (junk ++ body))
      ∧ obj.Good before' h' (junk ++ body) ∧ h'.initializedLength = h.initializedLength + count
      ∧ Keeps before h body before' h' (junk ++ body) := by
  have hle := hg.initializedLength_le
  have hcapacity := hg.capacity_le
  have hmax := hg.numShifted_le
  have hne : before ≠ [] := ne_nil_of_length_pos (Nat.lt_of_lt_of_le hpos hcount)
  have hstorage := hg.storage_ne hne
  obtain ⟨hextensible, hflags⟩ := hg.of_shifted hne
  obtain ⟨h', hh'⟩ : ∃ h' : ObjectElements, h' = {
      h with
      flags := h.setNumShiftedElements (before.length - count)
      capacity := h.capacity + count
      initializedLength := h.initializedLength + count
    } := ⟨_, rfl⟩
  have hunshift : h.unshiftShiftedElements count = some h' := by
    unfold ObjectElements.unshiftShiftedElements
    rw [hg.numShifted_eq, MOZ_ASSERT_of hpos, MOZ_ASSERT_of hflags, hh']
    simp only [some_bind]
    rw [MOZ_ASSERT_of hcount]
    rfl
  have hlt : before.length - count ≤ before.length := Nat.sub_le _ _
  obtain ⟨junk, hjunk, hdrop⟩ := drop_header before h body hlt
  have hlength : junk.length = count := by omega
  obtain ⟨before', hbefore'⟩ : ∃ before', before' = before.take (before.length - count) := ⟨_, rfl⟩
  have hbefore : before'.length = before.length - count := by
    rw [hbefore', length_take]
    omega
  obtain ⟨obj1, hobj1⟩ : ∃ obj1 : NativeObject α, obj1
      = { obj.place before h body with elements_ := before.length + VALUES_PER_HEADER - count } := ⟨_, rfl⟩
  have hslots : obj1.slots = before ++ (h.slots ++ body) := by
    rw [hobj1]
    rfl
  have hmemmove : obj1.memmove before'.length before.length VALUES_PER_HEADER
      = some (obj.place before' h (junk ++ body)) := by
    rw [memmove_header (by rw [hobj1]; exact hstorage) (by omega) hslots, hslots, hbefore, hdrop,
      take_append_of_le_length hlt, ← hbefore', hobj1]
    unfold place
    rw [hbefore, Nat.sub_add_comm hcount]
  have hset : (obj.place before' h (junk ++ body)).setHeaderAt before'.length h'
      = some (obj.place before' h' (junk ++ body)) :=
    setHeaderAt_append (storage_place hstorage) rfl
  have hfrom' : fromElements (before.length + VALUES_PER_HEADER - count) = some before'.length := by
    rw [hbefore, Nat.sub_add_comm hcount]
    exact fromElements_add _
  have hkeep (mask : BitVec 32) (hmask : FlagsMask &&& mask = mask) : h'.flags &&& mask = h.flags &&& mask := by
    rw [hh']
    exact ObjectElements.setNumShiftedElements_and mask hmask
  refine ⟨before', h', junk, hlength, ?_, ?_, by rw [hh'], ?_, ?_, by rw [hh'], hkeep _ (by decide)⟩
  . unfold NativeObject.unshiftShiftedElements
    rw [fromElements_place, some_bind, MOZ_ASSERT_of (by show count ≤ before.length + _; omega)]
    simp only [some_bind]
    rw [show (obj.place before h body).elements_ = before.length + VALUES_PER_HEADER from rfl, hfrom', some_bind,
      ← hobj1, hmemmove, some_bind, headerAt_place, some_bind, hunshift, some_bind, hset]
  . refine hg.keep ?_ ?_ ?_ ?_ hstorage hkeep fun _ => ⟨hextensible, hflags⟩
    . rw [hbefore, hh']
      exact ObjectElements.setNumShiftedElements_shiftRight (by omega)
    . rw [hh']
      dsimp only
      omega
    . rw [hh', length_append]
      dsimp only
      omega
    . rw [length_append]
      omega
  . rw [length_append]
    omega
  . rw [hh']
    dsimp only
    omega

theorem unshiftDenseElements {count : Nat} (hpos : count > 0) (hcount : count ≤ before.length)
    : ∃ before' h', (obj.place before h body).unshiftDenseElements count
        = some (obj.place before' h' (undefineds count ++ body))
      ∧ obj.Good before' h' (undefineds count ++ body) ∧ h'.initializedLength = h.initializedLength + count
      ∧ Keeps before h body before' h' (undefineds count ++ body) := by
  have hne : before ≠ [] := ne_nil_of_length_pos (Nat.lt_of_lt_of_le hpos hcount)
  obtain ⟨hextensible, hflags⟩ := hg.of_shifted hne
  obtain ⟨before', h', junk, hjunk, hunshift, hg', hlength, hkeeps⟩ := hg.unshiftShiftedElements hpos hcount
  have hsame : (undefineds count ++ body).length = (junk ++ body).length := by
    rw [length_append, length_append, length_undefineds, hjunk]
  have hfront : overwrite (junk ++ body) 0 (undefineds count) = undefineds count ++ body :=
    overwrite_front (by rw [length_undefineds, hjunk]) body
  have hcow : h'.isCopyOnWrite = false := ObjectElements.isCopyOnWrite_of_unshifted (hkeeps.unshifted hflags)
  have hinit : initUndefined 0 count (obj.place before' h' (junk ++ body)) = some (obj.place before' h' _) :=
    initUndefined_place (hg.storage_ne hne) hcow hextensible (by omega)
      (Nat.le_trans hg'.initializedLength_le hg'.capacity_le)
  refine ⟨before', h', ?_, hg'.of_length hsame, hlength, ?_, hkeeps.capacity, hkeeps.length, hkeeps.flags⟩
  . unfold NativeObject.unshiftDenseElements
    rw [hunshift, some_bind, hinit, hfront]
  . rw [hsame]
    exact hkeeps.slots

theorem prependAndShift (barrier : Bool) (hpos : toShift > 0)
    (hunused : toShift ≤ h.capacity - h.initializedLength) (hmax : before.length + toShift ≤ MaxShiftedElements)
    (hlength : 0 < h.initializedLength) (hflags : h.flags &&& UnshiftedFlags = 0) (hextensible : obj.isExtensible = true)
    : ∃ before' h' body', (obj.place before h body).prependAndShift barrier toShift = some (obj.place before' h' body')
      ∧ obj.Good before' h' body' ∧ Same before h body before' h' body' ∧ before'.length = before.length + toShift := by
  have hle := hg.initializedLength_le
  have hcapacity := hg.capacity_le
  have hcow := ObjectElements.isCopyOnWrite_of_unshifted hflags
  have hstorage := hg.storage_ne_of_pos (Nat.lt_of_lt_of_le hlength hle)
  have hg1 := hg.of_initializedLength (show h.initializedLength + toShift ≤ h.capacity by omega)
  have hset : (obj.place before h body).setDenseInitializedLength (h.initializedLength + toShift)
      = some (obj.place before { h with initializedLength := h.initializedLength + toShift } body) :=
    setDenseInitializedLength_place hstorage hcow hextensible (by omega)
  have hlength1 : ({ h with initializedLength := h.initializedLength + toShift } : ObjectElements).initializedLength
      = h.initializedLength + toShift := rfl
  have hkeeps1 : Keeps before h body before { h with initializedLength := h.initializedLength + toShift } body :=
    ⟨rfl, rfl, rfl, rfl⟩
  have hcow1 : ({ h with initializedLength := h.initializedLength + toShift } : ObjectElements).isCopyOnWrite = false :=
    hcow
  generalize ({ h with initializedLength := h.initializedLength + toShift } : ObjectElements) = h1 at *
  have hcapacity1 := hkeeps1.capacity
  have hover := length_overwrite (show h.initializedLength + (undefineds toShift : List (HeapSlot α)).length ≤ body.length by
    rw [length_undefineds]; omega)
  have hinit : initUndefined h.initializedLength toShift (obj.place before h1 body) = some (obj.place before h1 _) :=
    initUndefined_place hstorage hcow1 hextensible (by omega) (by omega)
  have hslice : slice (overwrite body h.initializedLength (undefineds toShift)) 0 h.initializedLength
      = body.take h.initializedLength :=
    slice_overwrite (by rw [length_undefineds]; omega) (.inr (by omega))
  generalize overwrite body h.initializedLength (undefineds toShift) = body1 at *
  have hmove : (obj.place before h1 body1).moveDenseElements barrier toShift 0 h.initializedLength
      = some (obj.place before h1 _) :=
    moveDenseElements_place hstorage barrier hcow1 hextensible (by omega) (by omega) (by omega) (by omega)
  have htake : (body.take h.initializedLength).length = h.initializedLength := by
    rw [length_take]
    omega
  rw [hslice] at hmove
  have hover2 := length_overwrite (show toShift + (body.take h.initializedLength).length ≤ body1.length by omega)
  have hself := slice_overwrite_self (show toShift + (body.take h.initializedLength).length ≤ body1.length by omega)
  have hg2 := hg1.of_length (hover2.trans hover)
  obtain ⟨before', h', body', hshift, hg', hlength', helements, hkeeps, hbefore'⟩ :=
    hg2.shiftDenseElementsUnchecked barrier hpos (by omega) (hkeeps1.unshifted hflags) (by omega) hextensible
  refine ⟨before', h', body', ?_, hg', ⟨⟨?_, hkeeps.capacity.trans hcapacity1, hkeeps.length.trans hkeeps1.length,
    hkeeps.flags.trans hkeeps1.flags⟩, ?_, by omega⟩, hbefore' hmax⟩
  . unfold NativeObject.prependAndShift
    rw [getElementsHeader_place, some_bind]
    dsimp only
    rw [hset, some_bind, hinit, some_bind, hmove, some_bind, hshift]
  . rw [hkeeps.slots, hover2, hover]
  . rw [helements, drop_take, show h1.initializedLength - toShift = (body.take h.initializedLength).length by omega]
    exact hself

theorem reserveShiftedElements (barrier : Bool) {count : Nat} (hcount : count > before.length)
    (hextensible : obj.isExtensible = true)
    : (obj.place before h body).reserveShiftedElements barrier count = some (false, obj.place before h body)
      ∨ ∃ before' h' body', (obj.place before h body).reserveShiftedElements barrier count
          = some (true, obj.place before' h' body')
        ∧ obj.Good before' h' body' ∧ Same before h body before' h' body' ∧ count ≤ before'.length := by
  have hle := hg.initializedLength_le
  unfold NativeObject.reserveShiftedElements
  rw [getElementsHeader_place, some_bind, hg.numShifted_eq]
  split
  next => exact .inl rfl
  next hnot =>
    rw [not_or, not_or, not_or, Bool.not_eq_true, Bool.not_eq_true] at hnot
    obtain ⟨hlength, hcow, hnonwritable, hmax⟩ := hnot
    have hflags := hg.unshifted hnonwritable hcow hextensible
    simp only [MOZ_ASSERT_of hle, MOZ_ASSERT_of (show count - before.length ≤ MaxShiftedElements by omega), some_bind]
    split
    next => exact .inl rfl
    next hunused =>
      obtain ⟨hpos, hcount', hmax', hunused'⟩ : extraToShift before.length (h.capacity - h.initializedLength)
            (count - before.length) > 0
          ∧ count ≤ before.length + extraToShift before.length (h.capacity - h.initializedLength) (count - before.length)
          ∧ before.length + extraToShift before.length (h.capacity - h.initializedLength) (count - before.length)
            ≤ MaxShiftedElements
          ∧ extraToShift before.length (h.capacity - h.initializedLength) (count - before.length)
            ≤ h.capacity - h.initializedLength := by
        unfold extraToShift
        dsimp only
        split <;> omega
      obtain ⟨before', h', body', hrun, hg', hsame, hbefore'⟩ :=
        hg.prependAndShift barrier hpos hunused' hmax' (by omega) hflags hextensible
      simp only [MOZ_ASSERT_of hcount', MOZ_ASSERT_of hmax', MOZ_ASSERT_of hunused', some_bind, hrun,
        getElementsHeader_place, MOZ_ASSERT_of (hg'.numShifted_eq.trans hbefore')]
      exact .inr ⟨before', h', body', rfl, hg', hsame, by omega⟩

theorem tryUnshiftDenseElements (barrier : Bool) {count : Nat} (hpos : count > 0) (hextensible : obj.isExtensible = true)
    : (obj.place before h body).tryUnshiftDenseElements barrier count = some (false, obj.place before h body)
      ∨ ∃ before' h' body', (obj.place before h body).tryUnshiftDenseElements barrier count
          = some (true, obj.place before' h' body')
        ∧ obj.Good before' h' body'
        ∧ body'.take h'.initializedLength = undefineds count ++ body.take h.initializedLength
        ∧ Keeps before h body before' h' body' := by
  unfold NativeObject.tryUnshiftDenseElements
  simp only [MOZ_ASSERT_isExtensible hextensible, MOZ_ASSERT_of hpos,
    getElementsHeader_place, some_bind, hg.numShifted_eq]
  split
  next hcount =>
    rcases hg.reserveShiftedElements barrier hcount hextensible with hrun | ⟨before1, h1, body1, hrun, hg1, hsame, hle⟩
    . rw [hrun]
      exact .inl rfl
    obtain ⟨before', h', hunshift, hg', hlength, hkeeps⟩ := hg1.unshiftDenseElements hpos hle
    rw [hrun, some_bind, if_pos rfl, hunshift]
    refine .inr ⟨before', h', _, rfl, hg', ?_, hsame.toKeeps.trans hkeeps⟩
    rw [hlength, take_undefineds, hsame.elements]
  next hcount =>
    obtain ⟨before', h', hunshift, hg', hlength, hkeeps⟩ := hg.unshiftDenseElements hpos (Nat.not_lt.mp hcount)
    rw [some_bind, if_pos rfl, hunshift]
    refine .inr ⟨before', h', _, rfl, hg', ?_, hkeeps⟩
    rw [hlength, take_undefineds]

end Good

end NativeObject

end SpiderMonkey.Elements
