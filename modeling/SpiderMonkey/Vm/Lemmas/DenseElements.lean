import SpiderMonkey.Mfbt.Lemmas.HashTable
import SpiderMonkey.Vm.Lemmas.NativeObject

/-!
This module contains what the operations that allocate elements do, and what is known about the amounts of slots that
are allocated.
-/

open List

namespace SpiderMonkey.Elements

open HashTable (le_RoundUpPow2 RoundUpPow2_le)

variable {reqCapacity length amount : Nat}

def IsAllocationSize (n : Nat) : Prop :=
  (∃ k, 3 ≤ k ∧ k < 20 ∧ n = 2 ^ k) ∨ n ∈ BigBuckets ∨ n = MAX_DENSE_ELEMENTS_ALLOCATION

theorem BigBuckets_le : ∀ b ∈ BigBuckets, Mebi ≤ b ∧ b ≤ MAX_DENSE_ELEMENTS_ALLOCATION := by
  decide

theorem BigBuckets_sorted : BigBuckets.Pairwise (· < ·) := by
  decide

theorem goodElementsAllocationAmount_none_iff
    : goodElementsAllocationAmount reqCapacity length = none ↔ reqCapacity > MAX_DENSE_ELEMENTS_COUNT := by
  unfold goodElementsAllocationAmount
  split
  next h => exact iff_of_true rfl h
  next h =>
    apply iff_of_false _ h
    dsimp only
    split
    next => exact Option.some_ne_none _
    next =>
      split
      next => exact Option.some_ne_none _
      next => exact Option.some_ne_none _

theorem not_too_large (h : goodElementsAllocationAmount reqCapacity length = some amount)
    : ¬reqCapacity > MAX_DENSE_ELEMENTS_COUNT := by
  intro hgt
  rw [goodElementsAllocationAmount_none_iff.mpr hgt] at h
  cases h

theorem goodElementsAllocationAmount_bounds (h : goodElementsAllocationAmount reqCapacity length = some amount)
    : reqCapacity + VALUES_PER_HEADER ≤ amount ∧ amount ≤ MAX_DENSE_ELEMENTS_ALLOCATION := by
  have hle := not_too_large h
  unfold goodElementsAllocationAmount at h
  rw [if_neg hle] at h
  dsimp only at h
  split at h
  next hsmall =>
    have hlower := le_RoundUpPow2 (reqCapacity + VALUES_PER_HEADER)
    have hupper : RoundUpPow2 (reqCapacity + VALUES_PER_HEADER) ≤ 2 ^ 20 := RoundUpPow2_le (Nat.le_of_lt hsmall)
    generalize RoundUpPow2 (reqCapacity + VALUES_PER_HEADER) = rounded at *
    cases h
    unfold VALUES_PER_HEADER SLOT_CAPACITY_MIN MAX_DENSE_ELEMENTS_ALLOCATION at *
    split_ifs <;> omega
  next =>
    split at h
    next b hfind =>
      cases h
      have hreq : decide (reqCapacity + VALUES_PER_HEADER ≤ amount) = true :=
        List.find?_some (p := fun b => decide (reqCapacity + VALUES_PER_HEADER ≤ b)) hfind
      have hreq := of_decide_eq_true hreq
      exact ⟨hreq, (BigBuckets_le _ (mem_of_find?_eq_some hfind)).2⟩
    next =>
      cases h
      unfold MAX_DENSE_ELEMENTS_COUNT at hle
      have : VALUES_PER_HEADER ≤ MAX_DENSE_ELEMENTS_ALLOCATION := by decide
      omega

theorem IsAllocationSize.cases (h : IsAllocationSize n) : (∃ k, 3 ≤ k ∧ k < 20 ∧ n = 2 ^ k) ∨ Mebi ≤ n := by
  rcases h with h | h | rfl
  . exact .inl h
  . exact .inr (BigBuckets_le n h).1
  . exact .inr (by decide)

theorem IsAllocationSize.slot_capacity_min_le (h : IsAllocationSize n) : SLOT_CAPACITY_MIN ≤ n := by
  rcases h.cases with ⟨k, hk, _, rfl⟩ | hbig
  . exact Nat.pow_le_pow_right Nat.two_pos hk
  . exact Nat.le_trans (by decide) hbig

theorem smallAmount_least (hrounded : rounded = RoundUpPow2 reqCapacity) (hsmall : reqCapacity < Mebi)
    (hn : IsAllocationSize n) (hle : reqCapacity ≤ n) : rounded ≤ n := by
  rcases hn.cases with ⟨k, _, _, rfl⟩ | hbig
  . exact hrounded ▸ RoundUpPow2_le hle
  have hupper : RoundUpPow2 reqCapacity ≤ 2 ^ 20 := RoundUpPow2_le (Nat.le_of_lt hsmall)
  unfold Mebi at hbig
  omega

theorem isAllocationSize_rounded (hrounded : rounded = RoundUpPow2 reqCapacity)
    (hsmall : reqCapacity < Mebi) (hmin : SLOT_CAPACITY_MIN ≤ rounded) : IsAllocationSize rounded := by
  have hupper : RoundUpPow2 reqCapacity ≤ 2 ^ 20 := RoundUpPow2_le (Nat.le_of_lt hsmall)
  unfold RoundUpPow2 at hrounded hupper
  generalize CeilingLog2 reqCapacity = k at *
  subst hrounded
  have hlower : 3 ≤ k := (Nat.pow_le_pow_iff_right (show 1 < 2 by decide)).mp hmin
  have hk : k ≤ 20 := (Nat.pow_le_pow_iff_right (show 1 < 2 by decide)).mp hupper
  rcases Nat.lt_or_eq_of_le hk with hlt | rfl
  . exact .inl ⟨k, hlower, hlt, rfl⟩
  . exact .inr (.inl (by decide))

theorem goodElementsAllocationAmount_zero (h : goodElementsAllocationAmount reqCapacity 0 = some amount)
    : IsAllocationSize amount ∧ ∀ n, IsAllocationSize n → reqCapacity + VALUES_PER_HEADER ≤ n → amount ≤ n := by
  have hle := not_too_large h
  unfold goodElementsAllocationAmount at h
  rw [if_neg hle] at h
  dsimp only at h
  split at h
  next hsmall =>
    have hlength : ¬(0 ≥ reqCapacity ∧ RoundUpPow2 (reqCapacity + VALUES_PER_HEADER) - VALUES_PER_HEADER > 0 / 3 * 2) := by
      rintro ⟨hzero, hgt⟩
      rw [Nat.le_zero.mp hzero] at hgt
      exact absurd hgt (by decide)
    rw [if_neg hlength] at h
    obtain ⟨rounded, hrounded⟩ : ∃ rounded, rounded = RoundUpPow2 (reqCapacity + VALUES_PER_HEADER) := ⟨_, rfl⟩
    rw [← hrounded] at h
    have hleast {n : Nat} := smallAmount_least (n := n) hrounded hsmall
    split at h
    next =>
      cases h
      exact ⟨.inl ⟨3, by decide, by decide, rfl⟩, fun n hn _ => hn.slot_capacity_min_le⟩
    next hmin =>
      cases h
      exact ⟨isAllocationSize_rounded hrounded hsmall (Nat.not_lt.mp hmin), fun n hn hreq => hleast hn hreq⟩
  next hbig =>
    have hbucket {n : Nat} (hn : IsAllocationSize n) (hreq : reqCapacity + VALUES_PER_HEADER ≤ n)
        : n ∈ BigBuckets ∨ n = MAX_DENSE_ELEMENTS_ALLOCATION := by
      rcases hn with ⟨k, _, hk, rfl⟩ | hn
      . have hpow : 2 ^ k < 2 ^ 20 := Nat.pow_lt_pow_right (by decide) hk
        unfold Mebi at hbig
        omega
      . exact hn
    split at h
    next b hfind =>
      cases h
      obtain ⟨_, smaller, larger, heq, hsmaller⟩ := List.find?_eq_some_iff_append.mp hfind
      have hmem : amount ∈ BigBuckets := mem_of_find?_eq_some hfind
      refine ⟨.inr (.inl hmem), fun n hn hreq => ?_⟩
      rcases hbucket hn hreq with hn | rfl
      . have hsorted := BigBuckets_sorted
        rw [heq] at hn hsorted
        rcases mem_append.mp hn with hn | hn
        . have hnot := hsmaller n hn
          rw [decide_eq_true hreq] at hnot
          cases hnot
        rcases mem_cons.mp hn with rfl | hn
        . exact Nat.le_refl n
        . exact Nat.le_of_lt ((pairwise_cons.mp (pairwise_append.mp hsorted).2.1).1 n hn)
      . exact (BigBuckets_le amount hmem).2
    next hfind =>
      cases h
      refine ⟨.inr (.inr rfl), fun n hn hreq => ?_⟩
      rcases hbucket hn hreq with hn | rfl
      . have hnot := List.find?_eq_none.mp hfind n hn
        exact absurd (decide_eq_true hreq) hnot
      . exact Nat.le_refl _

namespace NativeObject

open Overwrite

variable {α : Type} {obj : NativeObject α} {before body spare : List (HeapSlot α)} {h : ObjectElements}
  (alloc : Allocator)

def dynamic (obj : NativeObject α) : NativeObject α := { obj with storage := .dynamicElements }

theorem storage_dynamic : obj.dynamic.storage ≠ .emptyElements := by
  intro hempty
  cases hempty

theorem setDynamicElements_eq (newCapacity : Nat)
    : (obj.place before h body).setDynamicElements (before ++ (h.slots ++ spare)) before.length newCapacity
      = some (obj.dynamic.place before { h with capacity := newCapacity } spare) := by
  unfold setDynamicElements
  have hplace : ({ obj.place before h body with
      slots := before ++ (h.slots ++ spare)
      elements_ := VALUES_PER_HEADER + before.length
      storage := .dynamicElements } : NativeObject α) = obj.dynamic.place before h spare := by
    unfold place dynamic
    rw [Nat.add_comm]
  simp only [hplace, getElementsHeader_place, some_bind]
  exact setElementsHeader_place storage_dynamic

theorem Good.shifted_add_capacity_le (hg : obj.Good before h body)
    : before.length + h.capacity ≤ MAX_DENSE_ELEMENTS_COUNT := by
  have hcapacity := hg.capacity_le
  have hallocated := hg.allocated_le
  unfold MAX_DENSE_ELEMENTS_COUNT
  omega

theorem Good.capacity_le_max (hg : obj.Good before h body) : h.capacity ≤ MAX_DENSE_ELEMENTS_COUNT :=
  Nat.le_trans (Nat.le_add_left _ _) hg.shifted_add_capacity_le

structure Rebuilt (before : List (HeapSlot α)) (h : ObjectElements) (body : List (HeapSlot α)) (newAllocated : Nat)
    (slots : List (HeapSlot α)) (body' : List (HeapSlot α)) : Prop where
  slots_eq : slots = before ++ (h.slots ++ body')
  length_eq : before.length + VALUES_PER_HEADER + body'.length = newAllocated
  elements : body'.take h.initializedLength = body.take h.initializedLength

theorem Good.rebuilt {body' slots : List (HeapSlot α)} (hg : obj.Good before h body)
    (hslots : Rebuilt before h body newAllocated slots body')
    (hmin : before.length + VALUES_PER_HEADER + h.initializedLength ≤ newAllocated)
    (hmax : newAllocated ≤ MAX_DENSE_ELEMENTS_ALLOCATION)
    : obj.dynamic.Good before { h with capacity := newAllocated - VALUES_PER_HEADER - before.length } body' := by
  have hlength := hslots.length_eq
  constructor
  . exact hg.numShifted_eq
  . dsimp only
    omega
  . dsimp only
    omega
  . omega
  . exact hg.of_shifted
  . exact hg.of_isExtensible
  . intro hempty
    cases hempty

theorem take_slots (k : Nat)
    : (before ++ (h.slots ++ body)).take (before.length + VALUES_PER_HEADER + k)
      = before ++ (h.slots ++ body.take k) := by
  rw [Nat.add_assoc, take_length_add_append]
  have htake : (h.slots ++ body).take ((h.slots : List (HeapSlot α)).length + k) = h.slots ++ body.take k :=
    take_length_add_append k
  exact congrArg (before ++ ·) htake

theorem rebuilt_of_take (hk : h.initializedLength ≤ k) (hle : k ≤ body.length)
    (hnew : before.length + VALUES_PER_HEADER + k ≤ newAllocated)
    : Rebuilt before h body newAllocated ((before ++ (h.slots ++ body)).take (before.length + VALUES_PER_HEADER + k)
          ++ List.replicate (newAllocated - (before.length + VALUES_PER_HEADER + k)) .uninitialized)
        (body.take k ++ List.replicate (newAllocated - (before.length + VALUES_PER_HEADER + k)) .uninitialized) where
  slots_eq := by
    rw [take_slots, append_assoc, append_assoc]
  length_eq := by
    rw [length_append, length_take, length_replicate]
    omega
  elements := by
    rw [take_append_of_le_length (by rw [length_take]; omega), take_take, Nat.min_eq_left hk]

theorem ReallocateObjectBuffer_place (hg : obj.Good before h body)
    (hmin : before.length + VALUES_PER_HEADER + h.initializedLength ≤ newAllocated)
    : alloc newAllocated = false ∧ (obj.place before h body).ReallocateObjectBuffer alloc 0
          (h.capacity + VALUES_PER_HEADER + before.length) newAllocated = some none
      ∨ alloc newAllocated = true ∧ ∃ slots body', (obj.place before h body).ReallocateObjectBuffer alloc 0
          (h.capacity + VALUES_PER_HEADER + before.length) newAllocated = some (some slots)
        ∧ Rebuilt before h body newAllocated slots body' := by
  have hle := hg.initializedLength_le
  have hcapacity := hg.capacity_le
  have hlength : (obj.place before h body).slots.length = _ := length_place
  obtain ⟨k, hk⟩ : ∃ k, k = min h.capacity (newAllocated - VALUES_PER_HEADER - before.length) := ⟨_, rfl⟩
  have hmin' : min (h.capacity + VALUES_PER_HEADER + before.length) newAllocated
      = before.length + VALUES_PER_HEADER + k := by
    omega
  have hkept : ((obj.place before h body).slots.take (before.length + VALUES_PER_HEADER + k)).length
      = before.length + VALUES_PER_HEADER + k := by
    rw [length_take]
    omega
  unfold ReallocateObjectBuffer
  rw [MOZ_ASSERT_of rfl, some_bind, MOZ_ASSERT_of (by omega), some_bind, hmin']
  dsimp only
  rw [hkept]
  cases halloc : alloc newAllocated with
  | false => exact .inl ⟨rfl, rfl⟩
  | true =>
    exact .inr ⟨rfl, _,
      body.take k ++ List.replicate (newAllocated - (before.length + VALUES_PER_HEADER + k)) .uninitialized, rfl, rebuilt_of_take (by omega) (by omega) (by omega)⟩

theorem PodCopy_place (hg : obj.Good before h body)
    (hmin : before.length + VALUES_PER_HEADER + h.initializedLength ≤ newAllocated)
    : ∃ slots body', (obj.place before h body).PodCopy (List.replicate newAllocated .uninitialized) 0
          (VALUES_PER_HEADER + h.initializedLength + before.length) = some slots
      ∧ Rebuilt before h body newAllocated slots body' := by
  have hle := hg.initializedLength_le
  have hcapacity := hg.capacity_le
  have hlength : (obj.place before h body).slots.length = _ := length_place
  have hcount : VALUES_PER_HEADER + h.initializedLength + before.length
      = before.length + VALUES_PER_HEADER + h.initializedLength := by omega
  have htake : ((before ++ (h.slots ++ body)).take (before.length + VALUES_PER_HEADER + h.initializedLength)).length
      = before.length + VALUES_PER_HEADER + h.initializedLength := by
    rw [length_take, Nat.min_eq_left]
    exact hlength ▸ (by omega)
  unfold PodCopy
  rw [hcount, MOZ_ASSERT_of (by omega), some_bind, MOZ_ASSERT_of (by rw [length_replicate]; exact hmin)]
  refine ⟨_, body.take h.initializedLength ++ List.replicate
    (newAllocated - (before.length + VALUES_PER_HEADER + h.initializedLength)) .uninitialized, rfl, ?_⟩
  have hslice : slice (obj.place before h body).slots 0 (before.length + VALUES_PER_HEADER + h.initializedLength)
      = (before ++ (h.slots ++ body)).take (before.length + VALUES_PER_HEADER + h.initializedLength) := rfl
  unfold overwrite
  rw [hslice, htake, take_zero, nil_append, Nat.zero_add, drop_replicate]
  exact rebuilt_of_take (Nat.le_refl _) (by omega) hmin

theorem bufferToGrow_place (hg : obj.Good before h body)
    (hmin : before.length + VALUES_PER_HEADER + h.initializedLength ≤ newAllocated)
    : alloc newAllocated = false ∧ (obj.place before h body).bufferToGrow alloc h newAllocated = some none
      ∨ ∃ slots body', (obj.place before h body).bufferToGrow alloc h newAllocated = some (some slots)
        ∧ Rebuilt before h body newAllocated slots body' := by
  unfold bufferToGrow
  rw [getUnshiftedElementsHeader_place hg.numShifted_eq, some_bind, hg.numShifted_eq]
  split
  next =>
    have hcapacity : h.capacity ≤ MAX_DENSE_ELEMENTS_COUNT := hg.capacity_le_max
    rw [MOZ_ASSERT_of hcapacity, some_bind]
    exact (ReallocateObjectBuffer_place alloc hg hmin).imp_right (·.2)
  next =>
    unfold AllocateObjectBuffer
    cases halloc : alloc newAllocated with
    | false => exact .inl ⟨rfl, rfl⟩
    | true =>
      obtain ⟨slots, body', hcopy, hrebuilt⟩ := PodCopy_place hg hmin
      rw [if_pos rfl]
      dsimp only
      rw [hcopy]
      exact .inr ⟨slots, body', rfl, hrebuilt⟩

theorem Good.before_eq_nil (hg : obj.Good before h body) (hflags : h.flags &&& UnshiftedFlags ≠ 0) : before = [] := by
  by_contra hne
  exact hflags (hg.of_shifted hne).2

theorem Good.before_of_nonwritable (hg : obj.Good before h body) (hnonwritable : h.hasNonwritableArrayLength = true)
    : before = [] := by
  apply hg.before_eq_nil
  intro hflags
  rw [ObjectElements.hasNonwritableArrayLength_of_unshifted hflags] at hnonwritable
  cases hnonwritable

theorem Good.before_of_copyOnWrite (hg : obj.Good before h body) (hcow : h.isCopyOnWrite = true) : before = [] := by
  apply hg.before_eq_nil
  intro hflags
  rw [ObjectElements.isCopyOnWrite_of_unshifted hflags] at hcow
  cases hcow

structure Preserves (obj : NativeObject α) (h : ObjectElements) (body : List (HeapSlot α)) (obj' : NativeObject α)
    (before' : List (HeapSlot α)) (h' : ObjectElements) (body' : List (HeapSlot α)) : Prop where
  storage : obj' = obj ∨ obj' = obj.dynamic
  good : obj'.Good before' h' body'
  elements : body'.take h'.initializedLength = body.take h.initializedLength
  initializedLength : h'.initializedLength = h.initializedLength
  length : h'.length = h.length
  flags : h'.flags &&& FlagsMask = h.flags &&& FlagsMask

section

variable {obj' obj'' : NativeObject α} {before' before'' body' body'' : List (HeapSlot α)} {h' h'' : ObjectElements}

theorem Same.preserves (hs : Same before h body before' h' body') (hg : obj.Good before' h' body')
    : Preserves obj h body obj before' h' body' :=
  ⟨.inl rfl, hg, hs.elements, hs.initializedLength, hs.length, hs.flags⟩

theorem Preserves.trans (hp : Preserves obj h body obj' before' h' body')
    (hp' : Preserves obj' h' body' obj'' before'' h'' body'') : Preserves obj h body obj'' before'' h'' body'' where
  storage := by
    rcases hp.storage with rfl | rfl
    . exact hp'.storage
    . exact .inr (hp'.storage.elim id id)
  good := hp'.good
  elements := hp'.elements.trans hp.elements
  initializedLength := hp'.initializedLength.trans hp.initializedLength
  length := hp'.length.trans hp.length
  flags := hp'.flags.trans hp.flags

theorem Preserves.isExtensible (hp : Preserves obj h body obj' before' h' body')
    : obj'.isExtensible = obj.isExtensible := by
  rcases hp.storage with rfl | rfl <;> rfl

end

def shiftedToGrow (h : ObjectElements) : Nat :=
  if h.initializedLength ≤ MaxElementsToMoveEagerly ∨ h.capacity < h.numAllocatedElements / 3 then 0
  else h.numShiftedElements

section Grow

variable (hg : obj.Good before h body) {reqCapacity : Nat}
include hg

theorem allocationToGrow_cases
    (hlength : h.hasNonwritableArrayLength = true → reqCapacity ≤ h.length ∧ reqCapacity ≤ MAX_DENSE_ELEMENTS_COUNT)
    : allocationToGrow h reqCapacity = some none ∧ reqCapacity + before.length > MAX_DENSE_ELEMENTS_COUNT
      ∨ ∃ newAllocated, allocationToGrow h reqCapacity = some (some newAllocated)
        ∧ before.length + VALUES_PER_HEADER + reqCapacity ≤ newAllocated
        ∧ newAllocated ≤ MAX_DENSE_ELEMENTS_ALLOCATION := by
  unfold allocationToGrow
  rw [hg.numShifted_eq]
  dsimp only
  cases hnonwritable : h.hasNonwritableArrayLength with
  | true =>
    obtain ⟨hlength, hmax⟩ := hlength hnonwritable
    have hunshifted : before.length = 0 := length_eq_zero_iff.mpr (hg.before_of_nonwritable hnonwritable)
    rw [if_pos rfl, MOZ_ASSERT_of hlength, some_bind, MOZ_ASSERT_of hmax]
    refine .inr ⟨_, rfl, by omega, ?_⟩
    unfold MAX_DENSE_ELEMENTS_COUNT at hmax
    have : VALUES_PER_HEADER ≤ MAX_DENSE_ELEMENTS_ALLOCATION := by decide
    omega
  | false =>
    rw [if_neg Bool.false_ne_true]
    rcases hamount : goodElementsAllocationAmount (reqCapacity + before.length) h.length with _ | newAllocated
    . exact .inl ⟨rfl, goodElementsAllocationAmount_none_iff.mp hamount⟩
    . obtain ⟨hlower, hupper⟩ := goodElementsAllocationAmount_bounds hamount
      exact .inr ⟨newAllocated, rfl, by omega, hupper⟩

theorem reallocateToGrow_place (hreq : h.capacity < reqCapacity)
    (hlength : h.hasNonwritableArrayLength = true → reqCapacity ≤ h.length ∧ reqCapacity ≤ MAX_DENSE_ELEMENTS_COUNT)
    : (obj.place before h body).reallocateToGrow alloc reqCapacity = some (false, obj.place before h body)
        ∧ (reqCapacity + before.length > MAX_DENSE_ELEMENTS_COUNT ∨ ∃ newAllocated, alloc newAllocated = false)
      ∨ ∃ newCapacity body', (obj.place before h body).reallocateToGrow alloc reqCapacity
          = some (true, obj.dynamic.place before { h with capacity := newCapacity } body')
        ∧ obj.dynamic.Good before { h with capacity := newCapacity } body'
        ∧ body'.take h.initializedLength = body.take h.initializedLength
        ∧ reqCapacity ≤ newCapacity ∧ newCapacity ≤ MAX_DENSE_ELEMENTS_COUNT
        ∧ reqCapacity + before.length ≤ MAX_DENSE_ELEMENTS_COUNT := by
  have hle := hg.initializedLength_le
  unfold reallocateToGrow
  rw [getElementsHeader_place, some_bind, hg.numShifted_eq]
  dsimp only
  rw [MOZ_ASSERT_of hreq, some_bind]
  rcases allocationToGrow_cases hg hlength with ⟨hnone, htoo⟩ | ⟨newAllocated, hsome, hlower, hupper⟩
  . rw [hnone]
    exact .inl ⟨rfl, .inl htoo⟩
  rw [hsome, some_bind]
  dsimp only
  have hcapacity : newAllocated - VALUES_PER_HEADER - before.length ≤ MAX_DENSE_ELEMENTS_COUNT := by
    unfold MAX_DENSE_ELEMENTS_COUNT
    omega
  rw [MOZ_ASSERT_of (show _ ∧ _ by omega), some_bind, MOZ_ASSERT_of hcapacity, some_bind]
  have hmin : before.length + VALUES_PER_HEADER + h.initializedLength ≤ newAllocated := by omega
  rcases bufferToGrow_place alloc hg hmin with ⟨halloc, hnone⟩ | ⟨slots, body', hsome, hrebuilt⟩
  . rw [hnone]
    exact .inl ⟨rfl, .inr ⟨newAllocated, halloc⟩⟩
  rw [hsome, some_bind]
  dsimp only
  rw [hrebuilt.slots_eq, setDynamicElements_eq]
  refine .inr ⟨_, body', rfl, hg.rebuilt hrebuilt hmin hupper, hrebuilt.elements, by omega, hcapacity, ?_⟩
  unfold MAX_DENSE_ELEMENTS_COUNT
  omega

theorem moveShiftedElementsToGrow_place (barrier : Bool) (hreq : h.capacity < reqCapacity) (huint : reqCapacity < 2 ^ 32)
    : ∃ enough before' h' body', (obj.place before h body).moveShiftedElementsToGrow barrier reqCapacity
        = some (enough, obj.place before' h' body')
      ∧ obj.Good before' h' body' ∧ Same before h body before' h' body'
      ∧ (enough = true → h.capacity < h'.capacity ∧ reqCapacity ≤ h'.capacity)
      ∧ (enough = false → h'.capacity < reqCapacity)
      ∧ (reqCapacity ≤ MAX_DENSE_ELEMENTS_COUNT → before'.length = shiftedToGrow h) := by
  unfold moveShiftedElementsToGrow
  rw [getElementsHeader_place, some_bind, hg.numShifted_eq]
  by_cases hpos : before.length > 0
  . have hne := length_pos_iff.mp hpos
    have hmoved : ∃ before₁ h₁ body₁, (if h.initializedLength ≤ MaxElementsToMoveEagerly then
          (obj.place before h body).moveShiftedElements barrier
        else (obj.place before h body).maybeMoveShiftedElements barrier) = some (obj.place before₁ h₁ body₁)
        ∧ obj.Good before₁ h₁ body₁ ∧ Same before h body before₁ h₁ body₁ ∧ before₁.length = shiftedToGrow h := by
      unfold shiftedToGrow
      split
      next heager =>
        obtain ⟨h₁, body₁, hmove, hg₁, hsame⟩ := hg.moveShiftedElements barrier hne
        exact ⟨[], h₁, body₁, hmove, hg₁, hsame, (if_pos (.inl heager)).symm⟩
      next heager =>
        obtain ⟨before₁, h₁, body₁, hmove, hg₁, hsame, hlength⟩ := hg.maybeMoveShiftedElements barrier hne
        refine ⟨before₁, h₁, body₁, hmove, hg₁, hsame, hlength.trans ?_⟩
        rw [hg.numShifted_eq]
        exact if_congr (by rw [or_iff_right heager]) rfl rfl
    obtain ⟨before₁, h₁, body₁, hmove, hg₁, hsame, hlength⟩ := hmoved
    have hmax := hg₁.numShifted_le
    unfold MaxShiftedElements NumShiftedElementsBits at hmax
    rw [if_pos hpos, hmove, some_bind, getElementsHeader_place, some_bind, hg₁.numShifted_eq]
    split
    next henough =>
      exact ⟨true, before₁, h₁, body₁, rfl, hg₁, hsame, fun _ => ⟨by omega, henough⟩, (nomatch ·), fun _ => hlength⟩
    next hnot =>
      split
      next hoverflow =>
        have hne₁ : before₁ ≠ [] := by
          rintro rfl
          rw [length_nil] at hoverflow
          omega
        obtain ⟨h', body', hmove', hg', hsame'⟩ := hg₁.moveShiftedElements barrier hne₁
        have hcapacity := hg'.capacity_le_max
        unfold MAX_DENSE_ELEMENTS_COUNT MAX_DENSE_ELEMENTS_ALLOCATION VALUES_PER_HEADER at hcapacity ⊢
        rw [hmove']
        exact ⟨false, [], h', body', rfl, hg', hsame.trans hsame', (nomatch ·), fun _ => by omega, fun _ => by omega⟩
      next =>
        exact ⟨false, before₁, h₁, body₁, rfl, hg₁, hsame, (nomatch ·), fun _ => Nat.not_le.mp hnot, fun _ => hlength⟩
  . rw [if_neg hpos]
    refine ⟨false, before, h, body, rfl, hg, .refl, (nomatch ·), fun _ => hreq, fun _ => ?_⟩
    unfold shiftedToGrow
    rw [hg.numShifted_eq]
    split <;> omega

theorem growElements_place (barrier : Bool) (hextensible : obj.isExtensible = true) (hcow : h.isCopyOnWrite = false)
    (hreq : h.capacity < reqCapacity) (huint : reqCapacity < 2 ^ 32)
    (hlength : h.hasNonwritableArrayLength = true → reqCapacity ≤ h.length ∧ reqCapacity ≤ MAX_DENSE_ELEMENTS_COUNT)
    : ∃ grown obj' before' h' body', (obj.place before h body).growElements alloc barrier reqCapacity
        = some (grown, obj'.place before' h' body')
      ∧ Preserves obj h body obj' before' h' body'
      ∧ (grown = true → h.capacity < h'.capacity ∧ reqCapacity ≤ h'.capacity)
      ∧ (reqCapacity ≤ MAX_DENSE_ELEMENTS_COUNT → if reqCapacity + shiftedToGrow h ≤ MAX_DENSE_ELEMENTS_COUNT then
          grown = false → ∃ newAllocated, alloc newAllocated = false else grown = false) := by
  unfold growElements
  rw [MOZ_ASSERT_isExtensible hextensible, some_bind, getElementsHeader_place, some_bind, MOZ_ASSERT_of (by simp [hcow]),
    some_bind]
  obtain ⟨enough, before₁, h₁, body₁, hmove, hg₁, hsame, henough, hnot, hshifted⟩ :=
    moveShiftedElementsToGrow_place hg barrier hreq huint
  rw [hmove, some_bind]
  dsimp only
  cases enough with
  | true =>
    obtain ⟨hlt, hle⟩ := henough rfl
    rw [if_pos rfl]
    refine ⟨true, obj, before₁, h₁, body₁, rfl, hsame.preserves hg₁, fun _ => ⟨hlt, hle⟩, fun hmax => ?_⟩
    have hfits := hg₁.shifted_add_capacity_le
    rw [← hshifted hmax, if_pos (by omega)]
    exact (nomatch ·)
  | false =>
    have hlength₁ : h₁.hasNonwritableArrayLength = true →
        reqCapacity ≤ h₁.length ∧ reqCapacity ≤ MAX_DENSE_ELEMENTS_COUNT := by
      intro hnonwritable
      rw [ObjectElements.hasNonwritableArrayLength_of_flags hsame.flags] at hnonwritable
      rw [hsame.length]
      exact hlength hnonwritable
    rw [if_neg Bool.false_ne_true]
    rcases reallocateToGrow_place alloc hg₁ (hnot rfl) hlength₁ with
      ⟨hrun, hreason⟩ | ⟨newCapacity, body', hrun, hg', helements, hle, _, hfits⟩
    . refine ⟨false, obj, before₁, h₁, body₁, hrun, hsame.preserves hg₁, (nomatch ·), fun hmax => ?_⟩
      rw [← hshifted hmax]
      split
      next hfits => exact fun _ => hreason.resolve_left (Nat.not_lt.mpr hfits)
      next => rfl
    have hpreserves : Preserves obj h₁ body₁ obj.dynamic before₁ { h₁ with capacity := newCapacity } body' :=
      ⟨.inr rfl, hg', helements, rfl, rfl, rfl⟩
    refine ⟨true, obj.dynamic, before₁, _, body', hrun, (hsame.preserves hg₁).trans hpreserves,
      fun _ => ⟨Nat.lt_of_lt_of_le hreq hle, hle⟩, fun hmax => ?_⟩
    rw [← hshifted hmax, if_pos hfits]
    exact (nomatch ·)

end Grow

section Shrink

variable (hg : obj.Good before h body) {reqCapacity : Nat}
include hg

def shiftedToShrink (h : ObjectElements) : Nat :=
  if h.capacity < h.numAllocatedElements / 3 then 0 else h.numShiftedElements

theorem maybeMoveToShrink_place (barrier : Bool)
    : ∃ before' h' body', (if h.numShiftedElements > 0 then (obj.place before h body).maybeMoveShiftedElements barrier
        else some (obj.place before h body)) = some (obj.place before' h' body')
      ∧ obj.Good before' h' body' ∧ Same before h body before' h' body' ∧ before'.length = shiftedToShrink h := by
  unfold shiftedToShrink
  rw [hg.numShifted_eq]
  split
  next hpos =>
    obtain ⟨before', h', body', hmove, hg', hsame, hlength⟩ :=
      hg.maybeMoveShiftedElements barrier (length_pos_iff.mp hpos)
    exact ⟨before', h', body', hmove, hg', hsame, hlength⟩
  next hzero =>
    refine ⟨before, h, body, rfl, hg, .refl, ?_⟩
    split <;> omega

theorem shiftedToShrink_le : shiftedToShrink h ≤ before.length := by
  unfold shiftedToShrink
  rw [hg.numShifted_eq]
  split <;> omega

theorem reallocateToShrink_place (hinitialized : h.initializedLength ≤ reqCapacity) (hreq : reqCapacity < h.capacity)
    : ∃ obj' h' body', (obj.place before h body).reallocateToShrink alloc reqCapacity
        = some (obj'.place before h' body')
      ∧ Preserves obj h body obj' before h' body' ∧ reqCapacity ≤ h'.capacity
      ∧ ∃ newAllocated, goodElementsAllocationAmount (reqCapacity + before.length) 0 = some newAllocated
        ∧ before.length + body'.length + VALUES_PER_HEADER
          = if newAllocated ≠ h.numAllocatedElements ∧ alloc newAllocated = true then newAllocated
            else before.length + body.length + VALUES_PER_HEADER := by
  have hfits := hg.shifted_add_capacity_le
  obtain ⟨newAllocated, hgood⟩ : ∃ newAllocated,
      goodElementsAllocationAmount (reqCapacity + before.length) 0 = some newAllocated := by
    apply Option.ne_none_iff_exists'.mp
    rw [Ne, goodElementsAllocationAmount_none_iff]
    omega
  obtain ⟨hlower, hupper⟩ := goodElementsAllocationAmount_bounds hgood
  have hheader : newAllocated > VALUES_PER_HEADER :=
    Nat.lt_of_lt_of_le (by decide) (goodElementsAllocationAmount_zero hgood).1.slot_capacity_min_le
  have hold : h.capacity + VALUES_PER_HEADER + before.length = h.numAllocatedElements := by
    unfold ObjectElements.numAllocatedElements
    rw [hg.numShifted_eq, Nat.add_comm h.capacity]
  have hcapacity : newAllocated - VALUES_PER_HEADER - before.length ≤ MAX_DENSE_ELEMENTS_COUNT := by
    unfold MAX_DENSE_ELEMENTS_COUNT
    omega
  have hmin : before.length + VALUES_PER_HEADER + h.initializedLength ≤ newAllocated := by omega
  have hsame (hnot : ¬(newAllocated ≠ h.numAllocatedElements ∧ alloc newAllocated = true))
      : before.length + body.length + VALUES_PER_HEADER
        = if newAllocated ≠ h.numAllocatedElements ∧ alloc newAllocated = true then newAllocated
          else before.length + body.length + VALUES_PER_HEADER :=
    (if_neg hnot).symm
  unfold reallocateToShrink
  rw [getElementsHeader_place, some_bind, hg.numShifted_eq]
  dsimp only
  simp only [MOZ_ASSERT_of hreq, hgood, MOZ_ASSERT_of hg.capacity_le_max, hold, some_bind]
  split
  next heq =>
    exact ⟨obj, h, body, rfl, Same.refl.preserves hg, Nat.le_of_lt hreq, newAllocated, rfl, hsame fun hand => hand.1 heq⟩
  next hne =>
    rw [MOZ_ASSERT_of hheader, some_bind, MOZ_ASSERT_of hcapacity, some_bind,
      getUnshiftedElementsHeader_place hg.numShifted_eq, some_bind]
    have hrealloc := ReallocateObjectBuffer_place alloc hg hmin
    rw [hold] at hrealloc
    rcases hrealloc with ⟨halloc, hnone⟩ | ⟨halloc, slots, body', hsome, hrebuilt⟩
    . rw [hnone]
      exact ⟨obj, h, body, rfl, Same.refl.preserves hg, Nat.le_of_lt hreq, newAllocated, rfl,
        hsame fun hand => Bool.false_ne_true (halloc.symm.trans hand.2)⟩
    rw [hsome, some_bind]
    dsimp only
    rw [hrebuilt.slots_eq, setDynamicElements_eq]
    refine ⟨obj.dynamic, _, body', rfl, ⟨.inr rfl, hg.rebuilt hrebuilt hmin hupper, hrebuilt.elements, rfl, rfl, rfl⟩,
      by dsimp only; omega, newAllocated, rfl, ?_⟩
    rw [if_pos ⟨hne, halloc⟩, ← hrebuilt.length_eq]
    omega

theorem shrinkElements_place (barrier : Bool) (hcow : h.isCopyOnWrite = false)
    (hinitialized : h.initializedLength ≤ reqCapacity) (hreq : reqCapacity < h.capacity)
    : ∃ obj' before' h' body', (obj.place before h body).shrinkElements alloc barrier reqCapacity
        = some (obj'.place before' h' body')
      ∧ Preserves obj h body obj' before' h' body' ∧ reqCapacity ≤ h'.capacity ∧ before'.length ≤ before.length
      ∧ ∃ newAllocated, goodElementsAllocationAmount (reqCapacity + shiftedToShrink h) 0 = some newAllocated
        ∧ before'.length + body'.length + VALUES_PER_HEADER
          = if obj.hasDynamicElements = true ∧ newAllocated ≠ h.numAllocatedElements ∧ alloc newAllocated = true then
              newAllocated
            else before.length + body.length + VALUES_PER_HEADER := by
  have hfits := hg.shifted_add_capacity_le
  have hle := shiftedToShrink_le hg
  obtain ⟨before₁, h₁, body₁, hmove, hg₁, hsame, hshifted⟩ := maybeMoveToShrink_place hg barrier
  have hcapacity₁ := hsame.capacity
  have hlength₁ := hsame.initializedLength
  have hallocated₁ : h₁.numAllocatedElements = h.numAllocatedElements := by
    unfold ObjectElements.numAllocatedElements
    rw [hg.numShifted_eq, hg₁.numShifted_eq]
    omega
  obtain ⟨obj', h', body', hrun, hpreserves, hcapacity', newAllocated, hgood, hslots⟩ :=
    reallocateToShrink_place alloc hg₁ (show h₁.initializedLength ≤ reqCapacity by omega) (by omega)
  rw [hshifted] at hgood
  rw [hallocated₁, hsame.slots] at hslots
  unfold shrinkElements
  rw [getElementsHeader_place, some_bind, MOZ_ASSERT_of hinitialized,
    some_bind, MOZ_ASSERT_of (by simp [hcow]), some_bind,
    show (obj.place before h body).hasDynamicElements = obj.hasDynamicElements from rfl]
  split
  next hdynamic =>
    refine ⟨obj, before, h, body, rfl, Same.refl.preserves hg, Nat.le_of_lt hreq, Nat.le_refl _, newAllocated, hgood, ?_⟩
    rw [if_neg (fun hand => hdynamic hand.1)]
  next hdynamic =>
    rw [hmove, some_bind, hrun]
    refine ⟨obj', before₁, h', body', rfl, (hsame.preserves hg₁).trans hpreserves, hcapacity', ?_, newAllocated, hgood,
      ?_⟩
    . rw [hshifted]
      exact hle
    rw [hslots]
    exact if_congr (by rw [and_iff_right (not_not.mp hdynamic)]) rfl rfl

theorem shrinkCapacityToInitializedLength_place (barrier : Bool) (hcow : h.isCopyOnWrite = false)
    : ∃ obj' h' body', (obj.place before h body).shrinkCapacityToInitializedLength alloc barrier
        = some (obj'.place [] h' body')
      ∧ Preserves obj h body obj' [] h' body' ∧ h'.capacity = h.initializedLength := by
  have hmoved : ∃ h₁ body₁, (if h.numShiftedElements > 0 then
        (obj.place before h body).moveShiftedElements barrier else some (obj.place before h body))
        = some (obj.place [] h₁ body₁)
      ∧ obj.Good [] h₁ body₁ ∧ Same before h body [] h₁ body₁ := by
    rw [hg.numShifted_eq]
    split
    next hpos =>
      obtain ⟨h₁, body₁, hmove, hg₁, hsame⟩ := hg.moveShiftedElements barrier (length_pos_iff.mp hpos)
      exact ⟨h₁, body₁, hmove, hg₁, hsame⟩
    next hzero =>
      obtain rfl := length_eq_zero_iff.mp (Nat.eq_zero_of_not_pos hzero)
      exact ⟨h, body, rfl, hg, .refl⟩
  obtain ⟨h₁, body₁, hmove, hg₁, hsame⟩ := hmoved
  have hle := hg₁.initializedLength_le
  have hcow₁ : h₁.isCopyOnWrite = false := (ObjectElements.isCopyOnWrite_of_flags hsame.flags).trans hcow
  unfold shrinkCapacityToInitializedLength
  rw [getElementsHeader_place, some_bind, hmove, some_bind, getElementsHeader_place, some_bind]
  dsimp only
  rw [MOZ_ASSERT_of hle, some_bind]
  split
  next heq => exact ⟨obj, h₁, body₁, rfl, hsame.preserves hg₁, heq.trans hsame.initializedLength⟩
  next hne =>
    obtain ⟨obj', before', h', body', hrun, hpreserves, hcapacity, hbefore, _⟩ :=
      shrinkElements_place alloc hg₁ barrier hcow₁ (Nat.le_refl _) (Nat.lt_of_le_of_ne hle (Ne.symm hne))
    obtain rfl := length_eq_zero_iff.mp (Nat.le_zero.mp hbefore)
    have hstorage : obj'.storage ≠ .emptyElements := by
      have hstorage : obj.storage ≠ .emptyElements := by
        intro hempty
        have hzero := (hg₁.of_emptyElements hempty).2
        omega
      rcases hpreserves.storage with rfl | rfl
      . exact hstorage
      . exact storage_dynamic
    rw [hrun, some_bind, getElementsHeader_place, some_bind, setElementsHeader_place hstorage]
    have hg' := hpreserves.good
    have hlength' := hpreserves.initializedLength
    refine ⟨obj', _, body', rfl, (hsame.preserves hg₁).trans ⟨hpreserves.storage, ?_, hpreserves.elements,
      hlength', hpreserves.length, hpreserves.flags⟩, hsame.initializedLength⟩
    constructor
    . exact hg'.numShifted_eq
    . exact Nat.le_of_eq hlength'
    . exact Nat.le_trans hcapacity hg'.capacity_le
    . exact hg'.allocated_le
    . exact hg'.of_shifted
    . exact hg'.of_isExtensible
    . intro hempty
      exact absurd hempty hstorage

end Shrink

theorem CopyElementsForWrite_place (hg : obj.Good before h body) (hextensible : obj.isExtensible = true)
    (hcow : h.isCopyOnWrite = true)
    : ∃ newAllocated, goodElementsAllocationAmount h.initializedLength 0 = some newAllocated
      ∧ if alloc newAllocated = false then
          (obj.place before h body).CopyElementsForWrite alloc = some (false, obj.place before h body)
        else ∃ h' body', (obj.place before h body).CopyElementsForWrite alloc
            = some (true, obj.dynamic.place [] h' body')
          ∧ obj.dynamic.Good [] h' body' ∧ body'.take h'.initializedLength = body.take h.initializedLength
          ∧ h'.initializedLength = h.initializedLength ∧ h'.length = h.length ∧ h'.isCopyOnWrite = false
          ∧ h'.hasNonwritableArrayLength = h.hasNonwritableArrayLength := by
  obtain rfl := hg.before_of_copyOnWrite hcow
  have hle := hg.initializedLength_le
  have hmax := hg.capacity_le_max
  obtain ⟨newAllocated, hgood⟩ : ∃ newAllocated, goodElementsAllocationAmount h.initializedLength 0 = some newAllocated := by
    apply Option.ne_none_iff_exists'.mp
    rw [Ne, goodElementsAllocationAmount_none_iff]
    omega
  obtain ⟨hlower, hupper⟩ := goodElementsAllocationAmount_bounds hgood
  have hcapacity : newAllocated - VALUES_PER_HEADER ≤ MAX_DENSE_ELEMENTS_COUNT := Nat.sub_le_sub_right hupper _
  have hmin : ([] : List (HeapSlot α)).length + VALUES_PER_HEADER + h.initializedLength ≤ newAllocated := by
    rw [length_nil]
    omega
  have hfrom : fromElements (obj.place [] h body).elements_ = some 0 := fromElements_add _
  obtain ⟨slots, body', hcopy, hrebuilt⟩ := PodCopy_place hg hmin
  refine ⟨newAllocated, hgood, ?_⟩
  unfold CopyElementsForWrite
  rw [getElementsHeader_place, some_bind, MOZ_ASSERT_of hcow, some_bind, MOZ_ASSERT_isExtensible hextensible, some_bind]
  dsimp only
  rw [hgood]
  dsimp only
  rw [MOZ_ASSERT_of hcapacity, some_bind]
  unfold AllocateObjectBuffer
  cases halloc : alloc newAllocated with
  | false =>
    rw [if_pos rfl]
    rfl
  | true =>
    rw [if_neg (nomatch ·), if_pos rfl]
    dsimp only
    have hcopy : (obj.place [] h body).PodCopy (List.replicate newAllocated .uninitialized) 0
        (VALUES_PER_HEADER + h.initializedLength) = some ([] ++ (h.slots ++ body')) := by
      rw [← hrebuilt.slots_eq]
      exact hcopy
    have hclear : ({ h with capacity := newAllocated - VALUES_PER_HEADER } : ObjectElements).clearCopyOnWrite = some _ :=
      ObjectElements.clearCopyOnWrite_eq hcow
    have hset : (obj.place [] h body).setDynamicElements ([] ++ (h.slots ++ body')) 0 (newAllocated - VALUES_PER_HEADER)
        = some _ := setDynamicElements_eq _
    simp only [hfrom, hcopy, hset, getElementsHeader_place, hclear, some_bind]
    rw [setElementsHeader_place storage_dynamic]
    have hg' := hg.rebuilt hrebuilt hmin hupper
    refine ⟨_, body', rfl, ?_, hrebuilt.elements, rfl, rfl, ?_, ?_⟩
    . constructor
      . unfold ObjectElements.numShiftedElements
        rw [ObjectElements.clear_shiftRight]
        exact hg.numShifted_eq
      . exact hg'.initializedLength_le
      . exact hg'.capacity_le
      . exact hg'.allocated_le
      . intro hne
        exact absurd rfl hne
      . intro hextensible
        obtain ⟨hsealed, hfrozen⟩ := hg.of_isExtensible hextensible
        exact ⟨(ObjectElements.clear_and _ (by decide)).trans hsealed, (ObjectElements.clear_and _ (by decide)).trans hfrozen⟩
      . intro hempty
        cases hempty
    . exact decide_eq_false (not_not.mpr (ObjectElements.isCopyOnWrite_clear h.flags))
    . unfold ObjectElements.hasNonwritableArrayLength
      rw [ObjectElements.clear_and _ (by decide)]

end NativeObject
end SpiderMonkey.Elements
