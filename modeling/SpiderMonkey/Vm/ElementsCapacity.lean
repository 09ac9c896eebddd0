import SpiderMonkey.Vm.Lemmas.DenseElements

/-!
This module contains the theorem about the capacities that elements get when they grow and shrink.
-/

namespace SpiderMonkey.Elements

variable {α : Type}

def NativeObject.HasElements (obj : NativeObject α) (h : ObjectElements) : Prop :=
  ∃ before body, obj = obj.place before h body ∧ obj.Good before h body

def Grows (obj : NativeObject α) (h : ObjectElements) (reqCapacity : Nat) : Prop :=
  ∀ alloc barrier, ∃ grown obj', obj.growElements alloc barrier reqCapacity = some (grown, obj')
    ∧ (grown = false → ∃ newAllocated, alloc newAllocated = false)
    ∧ (grown = true → ∃ h', obj'.getElementsHeader = some h' ∧ h.capacity < h'.capacity
      ∧ reqCapacity ≤ h'.capacity ∧ h'.capacity ≤ MAX_DENSE_ELEMENTS_COUNT)

def Shrinks (obj : NativeObject α) (reqCapacity : Nat) : Prop :=
  ∀ alloc barrier, ∃ obj' h', obj.shrinkElements alloc barrier reqCapacity = some obj'
    ∧ obj'.getElementsHeader = some h' ∧ reqCapacity ≤ h'.capacity ∧ obj'.slots.length ≤ obj.slots.length

open NativeObject

variable {obj : NativeObject α} {h : ObjectElements} {reqCapacity : Nat}

theorem grows_iff (hobj : obj.HasElements h) (hextensible : obj.isExtensible = true) (hcow : h.isCopyOnWrite = false)
    (hlength : h.hasNonwritableArrayLength = true → reqCapacity ≤ h.length) (hreq : h.capacity < reqCapacity)
    (hmax : reqCapacity ≤ MAX_DENSE_ELEMENTS_COUNT)
    : Grows obj h reqCapacity ↔ reqCapacity + shiftedToGrow h ≤ MAX_DENSE_ELEMENTS_COUNT := by
  obtain ⟨before, body, hplace, hg⟩ := hobj
  have huint : reqCapacity < 2 ^ 32 := Nat.lt_of_le_of_lt hmax (by decide)
  have hrun (alloc : Allocator) (barrier : Bool) :=
    growElements_place alloc hg barrier hextensible hcow hreq huint fun hnonwritable => ⟨hlength hnonwritable, hmax⟩
  rw [← hplace] at hrun
  constructor
  . intro hgrows
    by_contra hfits
    obtain ⟨grown, obj', before', h', body', heq, _, _, hfails⟩ := hrun (fun _ => true) false
    obtain ⟨grown', obj'', heq', hreason, _⟩ := hgrows (fun _ => true) false
    have hgrown := hfails hmax
    rw [if_neg hfits] at hgrown
    rw [heq] at heq'
    cases heq'
    obtain ⟨_, hfalse⟩ := hreason hgrown
    cases hfalse
  . intro hfits alloc barrier
    obtain ⟨grown, obj', before', h', body', heq, hpreserves, hcapacity, hfails⟩ := hrun alloc barrier
    have hreason := hfails hmax
    rw [if_pos hfits] at hreason
    refine ⟨grown, _, heq, hreason, fun hgrown => ⟨h', getElementsHeader_place, ?_⟩⟩
    obtain ⟨hlt, hle⟩ := hcapacity hgrown
    exact ⟨hlt, hle, hpreserves.good.capacity_le_max⟩

theorem shrinks_iff (hobj : obj.HasElements h) (hcow : h.isCopyOnWrite = false)
    (hinitialized : h.initializedLength ≤ reqCapacity) (hreq : reqCapacity < h.capacity)
    : Shrinks obj reqCapacity ↔ (obj.hasDynamicElements = true → ∃ n, IsAllocationSize n
        ∧ reqCapacity + shiftedToShrink h + VALUES_PER_HEADER ≤ n ∧ n ≤ obj.slots.length) := by
  obtain ⟨before, body, hplace, hg⟩ := hobj
  have hslots : obj.slots.length = before.length + body.length + VALUES_PER_HEADER := by
    rw [hplace, length_place]
    omega
  have hrun (alloc : Allocator) (barrier : Bool) :=
    shrinkElements_place alloc hg barrier hcow hinitialized hreq
  rw [← hplace, ← hslots] at hrun
  constructor
  . intro hshrinks hdynamic
    obtain ⟨obj', before', h', body', heq, _, _, _, newAllocated, hgood, hslots'⟩ := hrun (fun _ => true) false
    obtain ⟨obj'', h'', heq', _, _, hle⟩ := hshrinks (fun _ => true) false
    rw [heq, Option.some.injEq] at heq'
    rw [← heq', length_place] at hle
    refine ⟨newAllocated, (goodElementsAllocationAmount_zero hgood).1, (goodElementsAllocationAmount_bounds hgood).1, ?_⟩
    by_cases hsame : newAllocated = h.numAllocatedElements
    . have hcapacity := hg.capacity_le
      unfold ObjectElements.numAllocatedElements at hsame
      rw [hg.numShifted_eq] at hsame
      omega
    . rw [if_pos ⟨hdynamic, hsame, rfl⟩] at hslots'
      omega
  . intro hfits alloc barrier
    obtain ⟨obj', before', h', body', heq, _, hcapacity, _, newAllocated, hgood, hslots'⟩ := hrun alloc barrier
    refine ⟨_, h', heq, getElementsHeader_place, hcapacity, ?_⟩
    have hlength : (obj'.place before' h' body').slots.length = before'.length + body'.length + VALUES_PER_HEADER := by
      rw [length_place]
      omega
    rw [hlength, hslots']
    split
    next hand =>
      obtain ⟨n, hn, hlower, hupper⟩ := hfits hand.1
      exact Nat.le_trans ((goodElementsAllocationAmount_zero hgood).2 n hn hlower) hupper
    next => exact Nat.le_refl _

theorem elementsCapacity_iff
    : (∀ reqCapacity length, reqCapacity ≤ MAX_DENSE_ELEMENTS_COUNT →
        ∃ goodAmount, goodElementsAllocationAmount reqCapacity length = some goodAmount
          ∧ reqCapacity + VALUES_PER_HEADER ≤ goodAmount ∧ goodAmount ≤ MAX_DENSE_ELEMENTS_ALLOCATION)
      ∧ ∀ (obj : NativeObject α) (h : ObjectElements) (reqCapacity : Nat), obj.HasElements h → h.isCopyOnWrite = false →
        (obj.isExtensible = true → (h.hasNonwritableArrayLength = true → reqCapacity ≤ h.length) →
          h.capacity < reqCapacity → reqCapacity ≤ MAX_DENSE_ELEMENTS_COUNT →
          (Grows obj h reqCapacity ↔ reqCapacity + shiftedToGrow h ≤ MAX_DENSE_ELEMENTS_COUNT))
        ∧ (h.initializedLength ≤ reqCapacity → reqCapacity < h.capacity →
          (Shrinks obj reqCapacity ↔ (obj.hasDynamicElements = true → ∃ n, IsAllocationSize n
            ∧ reqCapacity + shiftedToShrink h + VALUES_PER_HEADER ≤ n ∧ n ≤ obj.slots.length))) := by
  constructor
  . intro reqCapacity length hmax
    obtain ⟨goodAmount, hgood⟩ : ∃ goodAmount, goodElementsAllocationAmount reqCapacity length = some goodAmount := by
      apply Option.ne_none_iff_exists'.mp
      rw [Ne, goodElementsAllocationAmount_none_iff]
      exact Nat.not_lt.mpr hmax
    exact ⟨goodAmount, hgood, goodElementsAllocationAmount_bounds hgood⟩
  . intro obj h reqCapacity hobj hcow
    exact ⟨fun hextensible hlength hreq hmax => grows_iff hobj hextensible hcow hlength hreq hmax,
      fun hinitialized hreq => shrinks_iff hobj hcow hinitialized hreq⟩

def arrayOf (capacity initializedLength : Nat) : NativeObject Unit :=
  place ⟨[], 0, .dynamicElements, true, false⟩ [] ⟨0, initializedLength, capacity, capacity⟩
    (List.replicate capacity (.value .undefined))

theorem hasElements_arrayOf {capacity initializedLength : Nat} (hle : initializedLength ≤ capacity)
    (hmax : capacity ≤ MAX_DENSE_ELEMENTS_COUNT)
    : (arrayOf capacity initializedLength).HasElements ⟨0, initializedLength, capacity, capacity⟩ := by
  refine ⟨[], List.replicate capacity (.value .undefined), rfl, ?_⟩
  have hflags : (0 : BitVec 32) >>> NumShiftedElementsShift = 0 ∧ (0 : BitVec 32) &&& SEALED = 0
      ∧ (0 : BitVec 32) &&& FROZEN = 0 := by
    decide
  constructor
  . exact congrArg BitVec.toNat hflags.1
  . exact hle
  . rw [List.length_replicate]
  . rw [List.length_replicate, List.length_nil, Nat.zero_add, Nat.add_comm]
    exact Nat.add_le_of_le_sub (by decide) hmax
  . intro hne
    exact absurd rfl hne
  . intro _
    exact hflags.2
  . intro hempty
    cases hempty

theorem elementsCapacity_iff_of_thirty
    : (∃ goodAmount, goodElementsAllocationAmount 30 100 = some goodAmount
        ∧ 30 + VALUES_PER_HEADER ≤ goodAmount ∧ goodAmount ≤ MAX_DENSE_ELEMENTS_ALLOCATION)
      ∧ Grows (arrayOf 30 15) ⟨0, 15, 30, 30⟩ 40 ∧ Shrinks (arrayOf 30 15) 15 := by
  have hpolicy := elementsCapacity_iff (α := Unit)
  have hobj := hasElements_arrayOf (show 15 ≤ 30 by decide) (by decide)
  refine ⟨hpolicy.1 30 100 (by decide), ?_, ?_⟩
  . exact ((hpolicy.2 _ _ 40 hobj rfl).1 rfl (fun h => nomatch h) (by decide) (by decide)).mpr (by decide)
  . refine ((hpolicy.2 _ _ 15 hobj rfl).2 (by decide) (by decide)).mpr fun _ => ⟨32, ?_, by decide, by decide⟩
    exact .inl ⟨5, by decide, by decide, rfl⟩

theorem shrinkElements_of_twenty
    : (arrayOf 20 15).HasElements ⟨0, 15, 20, 20⟩ ∧ (arrayOf 20 15).slots.length = 22
      ∧ ((arrayOf 20 15).shrinkElements (fun _ => true) false 15).map (·.slots.length) = some 32
      ∧ ¬Shrinks (arrayOf 20 15) 15 := by
  have hrun : ((arrayOf 20 15).shrinkElements (fun _ => true) false 15).map (·.slots.length) = some 32 := by
    decide
  refine ⟨hasElements_arrayOf (by decide) (by decide), by decide, hrun, ?_⟩
  intro hshrinks
  obtain ⟨obj', h', heq, _, _, hle⟩ := hshrinks (fun _ => true) false
  rw [heq, Option.map_some, Option.some.injEq] at hrun
  rw [hrun] at hle
  exact absurd hle (by decide)

end SpiderMonkey.Elements
