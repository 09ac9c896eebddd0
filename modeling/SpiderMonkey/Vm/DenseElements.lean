import SpiderMonkey.Vm.Lemmas.ExtendElements

/-!
This module contains the theorem about the list that the dense elements of an object are.
-/

namespace SpiderMonkey.Elements

open List
open Overwrite

variable {α : Type}

-- An object that is extensible, with this header, has these values as its initialized elements. The header and the slots
-- for all elements are in the allocation, and only elements that no flag protects are shifted.
structure Represents (obj : NativeObject α) (h : ObjectElements) (xs : List (Value α)) : Prop where
  header : obj.getElementsHeader = some h
  elements_eq : obj.elements_ = h.numShiftedElements + VALUES_PER_HEADER
  length_eq : h.initializedLength = xs.length
  getDenseElement : ∀ i, i < xs.length → obj.getDenseElement i = xs[i]?
  initializedLength_le : h.initializedLength ≤ h.capacity
  numShifted_le : h.numShiftedElements ≤ MaxShiftedElements
  capacity_le : VALUES_PER_HEADER + h.numShiftedElements + h.capacity ≤ obj.slots.length
  allocated_le : obj.slots.length ≤ MAX_DENSE_ELEMENTS_ALLOCATION
  of_shifted : 0 < h.numShiftedElements → h.flags &&& UnshiftedFlags = 0
  of_emptyElements : obj.storage = .emptyElements → h.numShiftedElements = 0 ∧ h.capacity = 0
  isExtensible : obj.isExtensible = true
  unfrozen : h.flags &&& SEALED = 0 ∧ h.flags &&& FROZEN = 0

inductive Operation (α : Type) where
  | tryShiftDenseElements (barrier : Bool) (count : Nat)
  | tryUnshiftDenseElements (barrier : Bool) (count : Nat)
  | moveShiftedElements (barrier : Bool)
  | maybeMoveShiftedElements (barrier : Bool)
  | growElements (alloc : Allocator) (barrier : Bool) (reqCapacity : Nat)
  | shrinkElements (alloc : Allocator) (barrier : Bool) (reqCapacity : Nat)
  | shrinkCapacityToInitializedLength (alloc : Allocator) (barrier : Bool)
  | ensureDenseElements (copyAlloc alloc : Allocator) (barrier : Bool) (index extra : Nat)
  | setDenseElement (index : Nat) (v : Value α)
  | moveDenseElements (barrier : Bool) (dstStart srcStart count : Nat)

namespace Operation

def run (obj : NativeObject α) : Operation α → Option (Bool × NativeObject α)
  | tryShiftDenseElements barrier count => obj.tryShiftDenseElements barrier count
  | tryUnshiftDenseElements barrier count => obj.tryUnshiftDenseElements barrier count
  | moveShiftedElements barrier => (true, ·) <$> obj.moveShiftedElements barrier
  | maybeMoveShiftedElements barrier => (true, ·) <$> obj.maybeMoveShiftedElements barrier
  | growElements alloc barrier reqCapacity => obj.growElements alloc barrier reqCapacity
  | shrinkElements alloc barrier reqCapacity => (true, ·) <$> obj.shrinkElements alloc barrier reqCapacity
  | shrinkCapacityToInitializedLength alloc barrier =>
    (true, ·) <$> obj.shrinkCapacityToInitializedLength alloc barrier
  | ensureDenseElements copyAlloc alloc barrier index extra => do
    let (result, obj) ← obj.ensureDenseElements copyAlloc alloc barrier index extra
    return (result = .Success, obj)
  | setDenseElement index v => (true, ·) <$> obj.setDenseElement index v
  | moveDenseElements barrier dstStart srcStart count =>
    (true, ·) <$> obj.moveDenseElements barrier dstStart srcStart count

def Allowed (obj : NativeObject α) (h : ObjectElements) : Operation α → Prop
  | tryShiftDenseElements _ count => 0 < count ∧ count ≤ h.initializedLength
  | tryUnshiftDenseElements _ count => 0 < count
  | moveShiftedElements _ => 0 < h.numShiftedElements
  | maybeMoveShiftedElements _ => 0 < h.numShiftedElements
  | growElements _ _ reqCapacity => h.isCopyOnWrite = false ∧ h.capacity < reqCapacity ∧ reqCapacity < 2 ^ 32
    ∧ (h.hasNonwritableArrayLength = true → reqCapacity ≤ h.length ∧ reqCapacity ≤ MAX_DENSE_ELEMENTS_COUNT)
  | shrinkElements _ _ reqCapacity => h.isCopyOnWrite = false ∧ h.initializedLength ≤ reqCapacity
    ∧ (obj.hasDynamicElements = true → reqCapacity < h.capacity)
  | shrinkCapacityToInitializedLength _ _ => h.isCopyOnWrite = true → h.capacity = h.initializedLength
  | ensureDenseElements _ _ _ index extra => index < 2 ^ 32 ∧ extra < 2 ^ 32
    ∧ (h.hasNonwritableArrayLength = true → index + extra ≤ h.length ∨ 2 ^ 32 ≤ index + extra
      ∨ h.isCopyOnWrite = false ∧ index + extra ≤ h.capacity)
  | setDenseElement index _ => h.isCopyOnWrite = false ∧ index < h.initializedLength
  | moveDenseElements _ dstStart srcStart count => h.isCopyOnWrite = false ∧ dstStart + count ≤ h.capacity
    ∧ srcStart + count ≤ h.initializedLength

-- The operation on the list. What is moved past the end of the list does not belong to it.
def onList (xs : List (Value α)) : Operation α → List (Value α)
  | tryShiftDenseElements _ count => xs.drop count
  | tryUnshiftDenseElements _ count => List.replicate count .undefined ++ xs
  | ensureDenseElements _ _ _ index extra => xs ++ List.replicate (index + extra - xs.length) .elementsHole
  | setDenseElement index v => xs.set index v
  | moveDenseElements _ dstStart srcStart count =>
    overwrite xs dstStart (slice xs srcStart (min count (xs.length - dstStart)))
  | _ => xs

end Operation

def runOperations : List (Operation α) → NativeObject α → Option (List Bool × NativeObject α)
  | [], obj => some ([], obj)
  | op :: ops, obj => do
    let (succeeds, obj) ← op.run obj
    let (rest, obj) ← runOperations ops obj
    return (succeeds :: rest, obj)

def AllowedRun : List (Operation α) → NativeObject α → Prop
  | [], _ => True
  | op :: ops, obj => (∀ h, obj.getElementsHeader = some h → op.Allowed obj h)
    ∧ ∀ succeeds obj', op.run obj = some (succeeds, obj') → AllowedRun ops obj'

def runOnList : List (Operation α) → List Bool → List (Value α) → List (Value α)
  | op :: ops, succeeds :: rest, xs => runOnList ops rest (if succeeds then op.onList xs else xs)
  | _, _, xs => xs

open NativeObject

variable {obj obj' : NativeObject α} {before before' body body' : List (HeapSlot α)} {h h' : ObjectElements}
  {xs : List (Value α)}

theorem headerAt_split {header : Nat} (hheader : obj.headerAt header = some h)
    : header + VALUES_PER_HEADER ≤ obj.slots.length
      ∧ obj.slots = obj.slots.take header ++ (h.slots ++ obj.slots.drop (header + VALUES_PER_HEADER)) := by
  unfold headerAt at hheader
  split at hheader
  next flags initializedLength capacity length hflags hcapacity =>
    cases hheader
    obtain ⟨hlt, hflags⟩ := List.getElem?_eq_some_iff.mp hflags
    obtain ⟨hlt', hcapacity⟩ := List.getElem?_eq_some_iff.mp hcapacity
    refine ⟨hlt', ?_⟩
    have hdrop := drop_eq_getElem_cons hlt
    rw [drop_eq_getElem_cons hlt', hflags, hcapacity] at hdrop
    exact (take_append_drop header obj.slots).symm.trans (congrArg _ hdrop)
  next => cases hheader

theorem slot_of_getDenseElement {i : Nat} (hv : obj.getDenseElement i = some v)
    : obj.slots[obj.elements_ + i]? = some (.value v) := by
  unfold getDenseElement at hv
  split at hv
  next v' hslot =>
    cases hv
    exact hslot
  next => cases hv

theorem Represents.of_place (hg : obj.Good before h body) (hextensible : obj.isExtensible = true)
    (hxs : body.take h.initializedLength = xs.map .value) : Represents (obj.place before h body) h xs where
  header := getElementsHeader_place
  elements_eq := congrArg (· + VALUES_PER_HEADER) hg.numShifted_eq.symm
  length_eq := initializedLength_eq hxs (Nat.le_trans hg.initializedLength_le hg.capacity_le)
  getDenseElement := by
    intro i hi
    rw [← initializedLength_eq hxs (Nat.le_trans hg.initializedLength_le hg.capacity_le)] at hi
    exact getDenseElement_place hxs hi
  initializedLength_le := hg.initializedLength_le
  numShifted_le := ObjectElements.numShiftedElements_le
  capacity_le := by
    have hcapacity := hg.capacity_le
    rw [length_place, hg.numShifted_eq]
    omega
  allocated_le := by
    have hallocated := hg.allocated_le
    rw [length_place]
    omega
  of_shifted := by
    intro hpos
    rw [hg.numShifted_eq] at hpos
    exact (hg.of_shifted (length_pos_iff.mp hpos)).2
  of_emptyElements := by
    intro hempty
    obtain ⟨hbefore, hcapacity⟩ := hg.of_emptyElements hempty
    rw [hg.numShifted_eq, hbefore]
    exact ⟨rfl, hcapacity⟩
  isExtensible := hextensible
  unfrozen := hg.of_isExtensible hextensible

theorem Represents.exists_place (hr : Represents obj h xs)
    : ∃ before body, obj = obj.place before h body ∧ obj.Good before h body
      ∧ body.take h.initializedLength = xs.map .value := by
  have hheader := hr.header
  unfold getElementsHeader at hheader
  rw [hr.elements_eq, fromElements_add] at hheader
  obtain ⟨hle, hslots⟩ := headerAt_split hheader
  have hbefore : (obj.slots.take h.numShiftedElements).length = h.numShiftedElements := by
    rw [length_take]
    omega
  have hcapacity := hr.capacity_le
  have hinitialized := hr.initializedLength_le
  obtain ⟨before, body, hplace, hbefore, hbody⟩ : ∃ before body, obj = obj.place before h body
      ∧ before.length = h.numShiftedElements
      ∧ before.length + VALUES_PER_HEADER + body.length = obj.slots.length := by
    refine ⟨_, obj.slots.drop (h.numShiftedElements + VALUES_PER_HEADER), ?_, hbefore, ?_⟩
    . unfold place
      rw [← hslots, hbefore, ← hr.elements_eq]
    . rw [hbefore, length_drop]
      omega
  refine ⟨before, body, hplace, ?_, ?_⟩
  . constructor
    . exact hbefore.symm
    . exact hinitialized
    . omega
    . rw [hbody]
      exact hr.allocated_le
    . intro hne
      have hpos := length_pos_iff.mpr hne
      exact ⟨hr.isExtensible, hr.of_shifted (by omega)⟩
    . intro _
      exact hr.unfrozen
    . intro hempty
      obtain ⟨hzero, hcapacity⟩ := hr.of_emptyElements hempty
      exact ⟨length_eq_zero_iff.mp (hbefore.trans hzero), hcapacity⟩
  . apply ext_getElem?
    intro i
    have hlength := hr.length_eq
    rw [List.getElem?_take, List.getElem?_map]
    split
    next hi =>
      have hsome : xs[i]? = some _ := List.getElem?_eq_getElem (by omega)
      have hget := (hr.getDenseElement i (by omega)).trans hsome
      have hslot := slot_of_getDenseElement hget
      rw [hplace, slot_place] at hslot
      rw [hslot, hsome]
      rfl
    next => rw [List.getElem?_eq_none (by omega)]; rfl

theorem Represents.of_preserves (hp : Preserves obj h body obj' before' h' body') (hextensible : obj.isExtensible = true)
    (hxs : body.take h.initializedLength = xs.map .value) : Represents (obj'.place before' h' body') h' xs :=
  .of_place hp.good (hp.isExtensible.trans hextensible) (hp.elements.trans hxs)

theorem moveDenseElements_zero (barrier : Bool) (hcow : h.isCopyOnWrite = false)
    (hextensible : obj.isExtensible = true) (hdst : dstStart + 0 ≤ h.capacity) (hsrc : srcStart + 0 ≤ h.initializedLength)
    (hle : h.initializedLength ≤ body.length)
    : (obj.place before h body).moveDenseElements barrier dstStart srcStart 0 = some (obj.place before h body) := by
  have hslots : (obj.place before h body).elements_ + srcStart + 0 ≤ (obj.place before h body).slots.length := by
    have helements : (obj.place before h body).elements_ = before.length + VALUES_PER_HEADER := rfl
    rw [length_place, helements]
    omega
  unfold moveDenseElements
  rw [getElementsHeader_place, some_bind, MOZ_ASSERT_of hdst, some_bind, MOZ_ASSERT_of hsrc, MOZ_ASSERT_of (by simp [hcow]),
    MOZ_ASSERT_isExtensible hextensible]
  show (if barrier = true then _ else _) = _
  split
  next => split <;> rfl
  next =>
    unfold memmove
    rw [MOZ_ASSERT_of hslots]
    rfl

theorem shrinkElements_of_not_dynamic (alloc : Allocator) (barrier : Bool)
    (hcow : h.isCopyOnWrite = false) (hinitialized : h.initializedLength ≤ reqCapacity)
    (hdynamic : (obj.place before h body).hasDynamicElements = false)
    : (obj.place before h body).shrinkElements alloc barrier reqCapacity = some (obj.place before h body) := by
  unfold shrinkElements
  rw [getElementsHeader_place, some_bind, MOZ_ASSERT_of hinitialized, some_bind, MOZ_ASSERT_of (by simp [hcow]), some_bind, if_pos (by simp [hdynamic])]
  rfl

theorem shrinkCapacityToInitializedLength_of_capacity (alloc : Allocator) (barrier : Bool)
    (hshifted : h.numShiftedElements = 0) (hcapacity : h.capacity = h.initializedLength)
    : (obj.place before h body).shrinkCapacityToInitializedLength alloc barrier = some (obj.place before h body) := by
  unfold shrinkCapacityToInitializedLength
  rw [getElementsHeader_place, some_bind, if_neg (by omega), some_bind, getElementsHeader_place, some_bind]
  dsimp only
  rw [MOZ_ASSERT_of (Nat.le_of_eq hcapacity.symm), some_bind, if_pos hcapacity]
  rfl

section

variable (hg : obj.Good before h body) (hextensible : obj.isExtensible = true)
  (hxs : body.take h.initializedLength = xs.map .value)
include hg hextensible hxs

theorem tryShiftDenseElements_represents (barrier : Bool) {count : Nat}
    (hallowed : (Operation.tryShiftDenseElements barrier count).Allowed (obj.place before h body) h)
    : ∃ succeeds obj' h', (obj.place before h body).tryShiftDenseElements barrier count = some (succeeds, obj')
      ∧ Represents obj' h' (if succeeds then xs.drop count else xs) := by
  obtain ⟨hpos, hcount⟩ := hallowed
  rcases hg.tryShiftDenseElements barrier hpos hcount hextensible with hrun | ⟨before', h', body', hrun, hg', hbody, _⟩
  . exact ⟨false, _, h, hrun, .of_place hg hextensible hxs⟩
  . refine ⟨true, _, h', hrun, .of_place hg' hextensible ?_⟩
    rw [hbody, hxs, if_pos rfl, map_drop]

theorem tryUnshiftDenseElements_represents (barrier : Bool) {count : Nat} (hpos : 0 < count)
    : ∃ succeeds obj' h', (obj.place before h body).tryUnshiftDenseElements barrier count = some (succeeds, obj')
      ∧ Represents obj' h' (if succeeds then List.replicate count .undefined ++ xs else xs) := by
  rcases hg.tryUnshiftDenseElements barrier hpos hextensible with hrun | ⟨before', h', body', hrun, hg', hbody, _⟩
  . exact ⟨false, _, h, hrun, .of_place hg hextensible hxs⟩
  . refine ⟨true, _, h', hrun, .of_place hg' hextensible ?_⟩
    rw [hbody, hxs, if_pos rfl, map_append, map_replicate, undefineds]

theorem setDenseElement_represents {index : Nat} (v : Value α)
    (hallowed : (Operation.setDenseElement index v).Allowed (obj.place before h body) h)
    : ∃ obj', (obj.place before h body).setDenseElement index v = some obj' ∧ Represents obj' h (xs.set index v) := by
  obtain ⟨hcow, hindex⟩ := hallowed
  have hle := Nat.le_trans hg.initializedLength_le hg.capacity_le
  have hstorage : obj.storage ≠ .emptyElements := by
    intro hempty
    have hzero := (hg.of_emptyElements hempty).2
    have hinitialized := hg.initializedLength_le
    omega
  refine ⟨_, setDenseElement_place hstorage hcow hindex hle, ?_⟩
  rw [overwrite_singleton (by omega)]
  apply Represents.of_place (hg.of_length length_set) hextensible
  rw [take_set, hxs, map_set]

theorem moveDenseElements_represents (barrier : Bool) {dstStart srcStart count : Nat}
    (hallowed : (Operation.moveDenseElements barrier dstStart srcStart count).Allowed (obj.place before h body) h)
    : ∃ obj', (obj.place before h body).moveDenseElements barrier dstStart srcStart count = some obj'
      ∧ Represents obj' h (overwrite xs dstStart (slice xs srcStart (min count (xs.length - dstStart)))) := by
  obtain ⟨hcow, hdst, hsrc⟩ := hallowed
  have hle := hg.initializedLength_le
  have hcapacity := hg.capacity_le
  rcases Nat.eq_zero_or_pos count with rfl | hpos
  . have hslice : slice xs srcStart (min 0 (xs.length - dstStart)) = [] := by
      rw [Nat.zero_min]
      exact take_zero
    rw [hslice, overwrite_nil]
    exact ⟨_, moveDenseElements_zero barrier hcow hextensible hdst hsrc (Nat.le_trans hle hcapacity),
      .of_place hg hextensible hxs⟩
  have hstorage : obj.storage ≠ .emptyElements := by
    intro hempty
    have hzero := (hg.of_emptyElements hempty).2
    omega
  have hlength := length_slice (show srcStart + count ≤ body.length by omega)
  refine ⟨_, moveDenseElements_place hstorage barrier hcow hextensible hdst hcapacity hsrc hle, ?_⟩
  apply Represents.of_place (hg.of_length (length_overwrite (by omega))) hextensible
  rw [take_overwrite_slice (by omega) (by omega) (by omega), hxs, ← map_slice, ← map_overwrite,
    initializedLength_eq hxs (by omega)]

theorem shrinkElements_represents (alloc : Allocator) (barrier : Bool)
    (hallowed : (Operation.shrinkElements alloc barrier reqCapacity).Allowed (obj.place before h body) h)
    : ∃ obj' h', (obj.place before h body).shrinkElements alloc barrier reqCapacity = some obj' ∧ Represents obj' h' xs := by
  obtain ⟨hcow, hinitialized, hreq⟩ := hallowed
  cases hdynamic : (obj.place before h body).hasDynamicElements with
  | false => exact ⟨_, h, shrinkElements_of_not_dynamic alloc barrier hcow hinitialized hdynamic, .of_place hg hextensible hxs⟩
  | true =>
    obtain ⟨obj', before', h', body', hrun, hpreserves, _⟩ :=
      shrinkElements_place alloc hg barrier hcow hinitialized (hreq hdynamic)
    exact ⟨_, h', hrun, .of_preserves hpreserves hextensible hxs⟩

theorem shrinkCapacityToInitializedLength_represents (alloc : Allocator) (barrier : Bool)
    (hallowed : h.isCopyOnWrite = true → h.capacity = h.initializedLength)
    : ∃ obj' h', (obj.place before h body).shrinkCapacityToInitializedLength alloc barrier = some obj'
      ∧ Represents obj' h' xs := by
  cases hcow : h.isCopyOnWrite with
  | false =>
    obtain ⟨obj', h', body', hrun, hpreserves, _⟩ := shrinkCapacityToInitializedLength_place alloc hg barrier hcow
    exact ⟨_, h', hrun, .of_preserves hpreserves hextensible hxs⟩
  | true =>
    have hshifted : h.numShiftedElements = 0 := by
      rw [hg.numShifted_eq, hg.before_of_copyOnWrite hcow]
      rfl
    exact ⟨_, h, shrinkCapacityToInitializedLength_of_capacity alloc barrier hshifted (hallowed hcow),
      .of_place hg hextensible hxs⟩

theorem ensureDenseElements_represents (copyAlloc alloc : Allocator) (barrier : Bool) {index extra : Nat}
    (hallowed : (Operation.ensureDenseElements copyAlloc alloc barrier index extra).Allowed (obj.place before h body) h)
    : ∃ result obj' h', (obj.place before h body).ensureDenseElements copyAlloc alloc barrier index extra
        = some (result, obj')
      ∧ Represents obj' h' (if result = .Success then
          xs ++ List.replicate (index + extra - xs.length) .elementsHole else xs) := by
  obtain ⟨hindex, hextra, hlength⟩ := hallowed
  have hinitialized := initializedLength_eq hxs (Nat.le_trans hg.initializedLength_le hg.capacity_le)
  obtain ⟨result, obj', before', h', body', hrun, hg', hextensible', hbody⟩ :=
    ensureDenseElements_place copyAlloc alloc barrier hg hextensible hxs hindex hextra hlength
  refine ⟨result, _, h', hrun, .of_place hg' hextensible' ?_⟩
  rw [hbody, hxs, hinitialized, holes, ← map_replicate, ← map_append]
  split
  next => rfl
  next => rw [replicate_zero, append_nil]

end

theorem Operation.run_represents (op : Operation α) (hr : Represents obj h xs) (hallowed : op.Allowed obj h)
    : ∃ succeeds obj' h', op.run obj = some (succeeds, obj')
      ∧ Represents obj' h' (if succeeds then op.onList xs else xs) := by
  have hextensible := hr.isExtensible
  obtain ⟨before, body, hplace, hg, hxs⟩ := hr.exists_place
  rw [hplace] at hallowed ⊢
  cases op with
  | tryShiftDenseElements barrier count => exact tryShiftDenseElements_represents hg hextensible hxs barrier hallowed
  | tryUnshiftDenseElements barrier count => exact tryUnshiftDenseElements_represents hg hextensible hxs barrier hallowed
  | moveShiftedElements barrier =>
    have hpos : before ≠ [] := length_pos_iff.mp (hg.numShifted_eq ▸ hallowed)
    obtain ⟨h', body', hrun, hg', hsame⟩ := hg.moveShiftedElements barrier hpos
    exact ⟨true, _, h', congrArg (Option.map (true, ·)) hrun, .of_preserves (hsame.preserves hg') hextensible hxs⟩
  | maybeMoveShiftedElements barrier =>
    have hpos : before ≠ [] := length_pos_iff.mp (hg.numShifted_eq ▸ hallowed)
    obtain ⟨before', h', body', hrun, hg', hsame, _⟩ := hg.maybeMoveShiftedElements barrier hpos
    exact ⟨true, _, h', congrArg (Option.map (true, ·)) hrun, .of_preserves (hsame.preserves hg') hextensible hxs⟩
  | growElements alloc barrier reqCapacity =>
    obtain ⟨hcow, hreq, huint, hlength⟩ := hallowed
    obtain ⟨grown, obj', before', h', body', hrun, hpreserves, _⟩ :=
      growElements_place alloc hg barrier hextensible hcow hreq huint hlength
    refine ⟨grown, _, h', hrun, ?_⟩
    show Represents _ _ (if grown = true then xs else xs)
    rw [ite_self]
    exact .of_preserves hpreserves hextensible hxs
  | shrinkElements alloc barrier reqCapacity =>
    obtain ⟨obj', h', hrun, hr'⟩ := shrinkElements_represents hg hextensible hxs alloc barrier hallowed
    exact ⟨true, obj', h', congrArg (Option.map (true, ·)) hrun, hr'⟩
  | shrinkCapacityToInitializedLength alloc barrier =>
    obtain ⟨obj', h', hrun, hr'⟩ := shrinkCapacityToInitializedLength_represents hg hextensible hxs alloc barrier hallowed
    exact ⟨true, obj', h', congrArg (Option.map (true, ·)) hrun, hr'⟩
  | ensureDenseElements copyAlloc alloc barrier index extra =>
    obtain ⟨result, obj', h', hrun, hr'⟩ :=
      ensureDenseElements_represents hg hextensible hxs copyAlloc alloc barrier hallowed
    refine ⟨decide (result = .Success), obj', h', ?_, ?_⟩
    . show ((obj.place before h body).ensureDenseElements copyAlloc alloc barrier index extra).bind _ = _
      rw [hrun]
      rfl
    show Represents obj' h' (if decide (result = .Success) = true then
      xs ++ List.replicate (index + extra - xs.length) .elementsHole else xs)
    simp only [decide_eq_true_eq]
    exact hr'
  | setDenseElement index v =>
    obtain ⟨obj', hrun, hr'⟩ := setDenseElement_represents hg hextensible hxs v hallowed
    exact ⟨true, obj', h, congrArg (Option.map (true, ·)) hrun, hr'⟩
  | moveDenseElements barrier dstStart srcStart count =>
    obtain ⟨obj', hrun, hr'⟩ := moveDenseElements_represents hg hextensible hxs barrier hallowed
    exact ⟨true, obj', h, congrArg (Option.map (true, ·)) hrun, hr'⟩

theorem denseElements_refine_list {obj : NativeObject α} {h : ObjectElements} {xs : List (Value α)}
    (ops : List (Operation α)) (hr : Represents obj h xs) (hallowed : AllowedRun ops obj)
    : ∃ rest obj' h', runOperations ops obj = some (rest, obj') ∧ rest.length = ops.length
      ∧ Represents obj' h' (runOnList ops rest xs) := by
  induction ops generalizing obj h xs with
  | nil => exact ⟨[], obj, h, rfl, rfl, hr⟩
  | cons op ops ih =>
    obtain ⟨hop, hrest⟩ := hallowed
    obtain ⟨succeeds, obj₁, h₁, hrun, hr₁⟩ := op.run_represents hr (hop h hr.header)
    obtain ⟨rest, obj', h', hruns, hlength, hr'⟩ := ih hr₁ (hrest succeeds obj₁ hrun)
    refine ⟨succeeds :: rest, obj', h', ?_, congrArg (· + 1) hlength, hr'⟩
    unfold runOperations
    rw [hrun, some_bind]
    dsimp only
    rw [hruns]
    rfl

def twoElements : NativeObject Nat :=
  NativeObject.place ⟨[], 0, .dynamicElements, true, false⟩ [] ⟨0, 2, 4, 2⟩
    [.value (.other 7), .value (.other 8), .uninitialized, .uninitialized]

theorem represents_twoElements : Represents twoElements ⟨0, 2, 4, 2⟩ [.other 7, .other 8] := by
  have hflags : (0 : BitVec 32) >>> NumShiftedElementsShift = 0 ∧ (0 : BitVec 32) &&& SEALED = 0
      ∧ (0 : BitVec 32) &&& FROZEN = 0 := by
    decide
  refine .of_place ?_ rfl rfl
  constructor
  . exact congrArg BitVec.toNat hflags.1
  . decide
  . decide
  . decide
  . intro hne
    exact absurd rfl hne
  . intro _
    exact hflags.2
  . intro hempty
    cases hempty

theorem denseElements_refine_list_of_two
    : ∃ rest obj' h', runOperations [.tryShiftDenseElements false 1, .tryUnshiftDenseElements true 3] twoElements
        = some (rest, obj') ∧ rest.length = 2
      ∧ Represents obj' h' (runOnList [.tryShiftDenseElements false 1, .tryUnshiftDenseElements true 3] rest
        [.other 7, .other 8]) := by
  refine denseElements_refine_list [.tryShiftDenseElements false 1, .tryUnshiftDenseElements true 3]
    represents_twoElements ⟨?_, fun _ _ _ => ⟨?_, fun _ _ _ => trivial⟩⟩
  . intro h hheader
    cases hheader
    exact ⟨by decide, by decide⟩
  . intro h _
    exact Nat.succ_pos 2

end SpiderMonkey.Elements
