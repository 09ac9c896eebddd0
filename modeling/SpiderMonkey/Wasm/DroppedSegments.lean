import SpiderMonkey.Wasm.Tables

/-!
This module contains the theorem on when a dropped segment behaves as an empty one.
-/

namespace SpiderMonkey.Wasm

open Overwrite

def dropAt {α : Type} (segments : List (Option α)) (segIndex : Nat) : Option (List (Option α)) :=
  match segments[segIndex]? with
  | none => none
  | some none => some segments
  | some (some _) => some (segments.set segIndex none)

theorem dropAt_getElem? {α : Type} {segments segments' : List (Option α)}
    (h : dropAt segments segIndex = some segments') (i : Nat)
    : segments'[i]? = if i = segIndex then some none else segments[i]? := by
  unfold dropAt at h
  rcases hseg : segments[segIndex]? with _ | _ | seg
  . rw [hseg] at h
    cases h
  . rw [hseg] at h
    cases h
    split
    next heq => rw [heq, hseg]
    next => rfl
  rw [hseg] at h
  cases h
  rw [List.getElem?_set]
  have hlt := (List.getElem?_eq_some_iff.mp hseg).1
  by_cases heq : i = segIndex
  . rw [if_pos heq.symm, if_pos (heq ▸ hlt), if_pos heq]
  . rw [if_neg (Ne.symm heq), if_neg heq]

theorem foldlM_dropAt_getElem? {α : Type} {segments segments' : List (Option α)} {drops : List Nat}
    (h : drops.foldlM dropAt segments = some segments') (i : Nat)
    : segments'[i]? = if i ∈ drops then some none else segments[i]? := by
  induction drops generalizing segments with
  | nil =>
    cases h
    rfl
  | cons segIndex drops ih =>
    rw [List.foldlM_cons] at h
    obtain ⟨dropped, hdrop, hrest⟩ := Option.bind_eq_some_iff.mp h
    rw [ih hrest, dropAt_getElem? hdrop]
    by_cases hmem : i ∈ drops
    . rw [if_pos hmem, if_pos (List.mem_cons_of_mem _ hmem)]
    by_cases heq : i = segIndex
    . rw [if_neg hmem, if_pos heq, if_pos (heq ▸ List.mem_cons_self)]
    . rw [if_neg hmem, if_neg heq, if_neg (by simp [heq, hmem])]

theorem dataDrop_eq : dataDrop = dropAt := by
  funext segments segIndex
  unfold dataDrop dropAt
  rcases segments[segIndex]? with _ | _ | seg <;> rfl

theorem dataDrop_getElem? {dataSegments : List DataSegment} {segments : List (Option DataSegment)} {drops : List Nat}
    (h : drops.foldlM dataDrop (passiveDataSegments dataSegments) = some segments)
    (hseg : dataSegments[segIndex]? = some seg)
    : segments[segIndex]? = some (if seg.active = true ∨ segIndex ∈ drops then none else some seg) := by
  rw [dataDrop_eq] at h
  rw [foldlM_dropAt_getElem? h]
  unfold passiveDataSegments
  rw [List.getElem?_map, hseg]
  by_cases hmem : segIndex ∈ drops
  . rw [if_pos hmem, if_pos (.inr hmem)]
  . rw [if_neg hmem]
    cases hactive : seg.active <;> simp [hactive, hmem]

variable {Obj Code Tls : Type}

namespace Instance

variable {fns : Functions Obj Code Tls} {succeeds : Nat → Bool} {instance' : Instance Code Tls}
  {heap : Heap Obj Code Tls} {id : Nat} {table : Table Obj Code Tls}

theorem elemDrop_eq (instance' : Instance Code Tls) (segIndex : Nat)
    : elemDrop instance' segIndex = (dropAt instance'.passiveElemSegments segIndex).map fun segments =>
        { instance' with passiveElemSegments := segments } := by
  unfold elemDrop dropAt
  rcases instance'.passiveElemSegments[segIndex]? with _ | _ | seg <;> rfl

theorem foldlM_elemDrop {instance'' : Instance Code Tls} {drops : List Nat}
    (h : drops.foldlM elemDrop instance' = some instance'') : ∃ segments,
      drops.foldlM dropAt instance'.passiveElemSegments = some segments
        ∧ instance'' = { instance' with passiveElemSegments := segments } := by
  induction drops generalizing instance' with
  | nil =>
    cases h
    exact ⟨_, rfl, rfl⟩
  | cons segIndex drops ih =>
    rw [List.foldlM_cons, elemDrop_eq] at h
    obtain ⟨dropped, hdrop, hrest⟩ := Option.bind_eq_some_iff.mp h
    obtain ⟨segments, hsegments, rfl⟩ := Option.map_eq_some_iff.mp hdrop
    obtain ⟨segments', hrun, rfl⟩ := ih hrest
    refine ⟨segments', ?_, rfl⟩
    rw [List.foldlM_cons, hsegments]
    exact hrun

theorem elemDrop_getElem? {instance'' : Instance Code Tls} {elemSegments : List ElemSegment} {drops : List Nat}
    (hinstance : instance'.passiveElemSegments = Wasm.passiveElemSegments elemSegments)
    (h : drops.foldlM elemDrop instance' = some instance'') (hseg : elemSegments[segIndex]? = some seg)
    : instance''.passiveElemSegments[segIndex]?
      = some (if seg.kind ≠ .Passive ∨ segIndex ∈ drops then none else some seg) := by
  obtain ⟨segments, hrun, rfl⟩ := foldlM_elemDrop h
  dsimp only
  rw [foldlM_dropAt_getElem? hrun, hinstance]
  unfold Wasm.passiveElemSegments
  rw [List.getElem?_map, hseg]
  by_cases hmem : segIndex ∈ drops
  . rw [if_pos hmem, if_pos (.inr hmem)]
  . rw [if_neg hmem]
    by_cases hkind : seg.kind = .Passive <;> simp [hkind, hmem]

end Instance

theorem length_nil_lt : ([] : List (BitVec 8)).length < 2 ^ 32 := by decide

def emptyDataSegment : DataSegment := ⟨false, [], length_nil_lt⟩

def emptyElemSegment : ElemSegment := ⟨.Passive, [], by decide⟩

-- The result is the one on an empty segment, which traps unless nothing is named and the destination is in bounds.
def BehavesAsEmpty {R : Type} (result resultOfEmpty trap : Option R) (length dst src len : Nat) : Prop :=
  result = resultOfEmpty ∧ (result = trap ↔ 0 < src + len ∨ length < dst + len)

def BeyondTheEnd (length dst src len : Nat) : Prop := src + len = 0 ∧ length < dst

theorem behavesAsEmpty_iff {R : Type} {result resultOfEmpty trap done : Option R} {length dst src len : Nat}
    (hne : done ≠ trap) (hresult : result = if src + len = 0 then done else trap)
    (hempty : resultOfEmpty = if src + len = 0 ∧ dst ≤ length then done else trap)
    : BehavesAsEmpty result resultOfEmpty trap length dst src len ↔ ¬BeyondTheEnd length dst src len := by
  unfold BehavesAsEmpty BeyondTheEnd
  subst hresult hempty
  by_cases hzero : src + len = 0
  . by_cases hdst : dst ≤ length
    . rw [if_pos hzero, if_pos ⟨hzero, hdst⟩]
      refine iff_of_true ⟨rfl, iff_of_false hne (by omega)⟩ (by omega)
    . rw [if_pos hzero, if_neg (fun h => hdst h.2)]
      exact iff_of_false (fun h => hne h.1) (not_not.mpr ⟨hzero, by omega⟩)
  . rw [if_neg hzero, if_neg (fun h => hzero h.1)]
    exact iff_of_true ⟨rfl, iff_of_true rfl (by omega)⟩ (fun h => hzero h.1)

theorem memInit_empty {segments : List (Option DataSegment)} (hlt : segIndex < segments.length)
    (mem : Memory) (dst src len : UInt32)
    : memInit (segments.set segIndex (some emptyDataSegment)) mem dst src len segIndex
      = if src.toNat + len.toNat = 0 ∧ dst.toNat ≤ mem.bytes.length then some (.ok mem)
        else some (.error .OutOfBounds) := by
  have hseg : (segments.set segIndex (some emptyDataSegment))[segIndex]? = some (some emptyDataSegment) :=
    List.getElem?_set_self hlt
  have hperforms := memInit_performs hseg mem dst src len
  split
  next h =>
    obtain ⟨mem', hrun, hbytes, hshared⟩ := hperforms.1 ⟨by omega, Nat.le_of_eq h.1⟩
    rw [show emptyDataSegment.bytes = [] from rfl, slice_nil, overwrite_nil] at hbytes
    obtain ⟨bytes, isShared, _, _⟩ := mem
    obtain ⟨bytes', isShared', _, _⟩ := mem'
    cases hbytes
    cases hshared
    exact hrun
  next h =>
    apply hperforms.2
    rintro ⟨hdst, hsrc⟩
    have : src.toNat + len.toNat ≤ 0 := hsrc
    exact h ⟨by omega, by omega⟩

namespace Instance

variable {fns : Functions Obj Code Tls} {succeeds : Nat → Bool} {instance' : Instance Code Tls}
  {heap : Heap Obj Code Tls} {id : Nat} {table : Table Obj Code Tls}

def withEmptySegment (instance' : Instance Code Tls) (segIndex : Nat) : Instance Code Tls :=
  { instance' with
    passiveElemSegments := instance'.passiveElemSegments.set segIndex (some emptyElemSegment) }

theorem tableInit_empty (hwf : WellFormed heap)
    (hindex : instance'.tables[tableIndex]? = some id) (hid : heap[id]? = some table)
    (hlt : segIndex < instance'.passiveElemSegments.length) (dst src len : UInt32)
    : tableInit fns succeeds (withEmptySegment instance' segIndex) heap dst src len segIndex tableIndex
      = if src.toNat + len.toNat = 0 ∧ dst.toNat ≤ table.length then some (heap, .ok ())
        else some (heap, .error .OutOfBounds) := by
  have hseg : (withEmptySegment instance' segIndex).passiveElemSegments[segIndex]? = some (some emptyElemSegment) :=
    List.getElem?_set_self hlt
  have htable : (withEmptySegment instance' segIndex).tables[tableIndex]? = some id := hindex
  obtain ⟨hidlt, hget⟩ := List.getElem?_eq_some_iff.mp hid
  unfold tableInit
  rw [hseg]
  dsimp only
  rw [htable, some_bind, hid, some_bind]
  have hsrcIff : src.toUInt64 + len.toUInt64 > (UInt32.ofNat emptyElemSegment.elemFuncIndices.length).toUInt64
      ↔ 0 < src.toNat + len.toNat := by
    rw [toUInt64_add_gt_iff]
    rfl
  rw [if_congr (or_congr (hwf.outOfBounds_iff hid dst len) hsrcIff) rfl rfl]
  by_cases h : src.toNat + len.toNat = 0 ∧ dst.toNat ≤ table.length
  . rw [if_pos h, if_neg (by omega), show len.toNat = 0 by omega]
    show some (heap.set id table, Except.ok ()) = _
    rw [← hget, List.set_getElem_self hidlt]
  . rw [if_neg h, if_pos (by omega)]

theorem tableInit_dropped (hseg : instance'.passiveElemSegments[segIndex]? = some none)
    (heap : Heap Obj Code Tls) (dst src len : UInt32) (tableIndex : Nat)
    : tableInit fns succeeds instance' heap dst src len segIndex tableIndex
      = if src.toNat + len.toNat = 0 then some (heap, .ok ()) else some (heap, .error .OutOfBounds) := by
  unfold tableInit
  rw [hseg]
  dsimp only
  apply if_congr _ rfl rfl
  rw [← UInt32.toNat_inj, ← UInt32.toNat_inj]
  show len.toNat = 0 ∧ src.toNat = 0 ↔ _
  omega

theorem droppedSegments_empty_iff (fns : Functions Obj Code Tls) (succeeds : Nat → Bool)
    {dataSegments : List DataSegment} {segments : List (Option DataSegment)} {dataDrops : List Nat}
    (hdata : dataDrops.foldlM dataDrop (passiveDataSegments dataSegments) = some segments)
    {instance'' : Instance Code Tls} {elemSegments : List ElemSegment} {elemDrops : List Nat}
    (hinstance : instance'.passiveElemSegments = Wasm.passiveElemSegments elemSegments)
    (helem : elemDrops.foldlM elemDrop instance' = some instance'') {tableIndex : Nat} (hwf : WellFormed heap)
    (hindex : instance'.tables[tableIndex]? = some id) (hid : heap[id]? = some table)
    : (∀ (segIndex : Nat) (seg : DataSegment), dataSegments[segIndex]? = some seg →
          seg.active = true ∨ segIndex ∈ dataDrops → ∀ (mem : Memory) (dst src len : UInt32),
        BehavesAsEmpty (memInit segments mem dst src len segIndex)
            (memInit (segments.set segIndex (some emptyDataSegment)) mem dst src len segIndex)
            (some (.error .OutOfBounds)) mem.bytes.length dst.toNat src.toNat len.toNat
          ↔ ¬BeyondTheEnd mem.bytes.length dst.toNat src.toNat len.toNat)
      ∧ ∀ (segIndex : Nat) (seg : ElemSegment), elemSegments[segIndex]? = some seg →
          seg.kind ≠ .Passive ∨ segIndex ∈ elemDrops → ∀ dst src len : UInt32,
        BehavesAsEmpty (tableInit fns succeeds instance'' heap dst src len segIndex tableIndex)
            (tableInit fns succeeds (withEmptySegment instance'' segIndex) heap dst src len segIndex tableIndex)
            (some (heap, .error .OutOfBounds)) table.length dst.toNat src.toNat len.toNat
          ↔ ¬BeyondTheEnd table.length dst.toNat src.toNat len.toNat := by
  constructor
  . intro segIndex seg hseg hdropped mem dst src len
    have hnone := dataDrop_getElem? hdata hseg
    rw [if_pos hdropped] at hnone
    have hlt := (List.getElem?_eq_some_iff.mp hnone).1
    exact behavesAsEmpty_iff (by nofun) (memInit_dropped hnone mem dst src len) (memInit_empty hlt mem dst src len)
  intro segIndex seg hseg hdropped dst src len
  have hnone := elemDrop_getElem? hinstance helem hseg
  rw [if_pos hdropped] at hnone
  have hlt := (List.getElem?_eq_some_iff.mp hnone).1
  have htables : instance''.tables[tableIndex]? = some id := by
    obtain ⟨segments, _, rfl⟩ := foldlM_elemDrop helem
    exact hindex
  exact behavesAsEmpty_iff (by nofun) (tableInit_dropped hnone heap dst src len tableIndex)
    (tableInit_empty hwf htables hid hlt dst src len)

def onePage : Memory := by
  refine ⟨List.replicate PageSize 0, false, ?_, ?_⟩
  . rw [List.length_replicate, Nat.mod_self]
  . rw [List.length_replicate]
    decide

def threeBytes : DataSegment := ⟨false, [1, 2, 3], by decide⟩

def twoFunctions : ElemSegment := ⟨.Passive, [0, 1], by decide⟩

def withTwoFunctions : Instance Unit Unit :=
  { aliasingInstance with passiveElemSegments := [some twoFunctions] }

theorem droppedSegments_empty_of_drops
    : BehavesAsEmpty (memInit [none] onePage 5 1 2 0) (memInit [some emptyDataSegment] onePage 5 1 2 0)
        (some (.error .OutOfBounds)) onePage.bytes.length 5 1 2
      ∧ BehavesAsEmpty (tableInit noFunctions (fun _ => true) aliasingInstance [threeObjects] 0 1 1 0 0)
        (tableInit noFunctions (fun _ => true) (withEmptySegment aliasingInstance 0) [threeObjects] 0 1 1 0 0)
        (some ([threeObjects], .error .OutOfBounds)) 3 0 1 1 := by
  have hdata : [0].foldlM dataDrop (passiveDataSegments [threeBytes]) = some [none] := rfl
  have hinstance : withTwoFunctions.passiveElemSegments = Wasm.passiveElemSegments [twoFunctions] := rfl
  have helem : [0].foldlM elemDrop withTwoFunctions = some aliasingInstance := rfl
  have hindex : withTwoFunctions.tables[0]? = some 0 := rfl
  have hempty := droppedSegments_empty_iff noFunctions (fun _ => true) hdata hinstance helem wellFormed_threeObjects
    hindex rfl
  constructor
  . refine (hempty.1 0 threeBytes rfl (.inr List.mem_cons_self) onePage 5 1 2).mpr ?_
    rintro ⟨hzero, _⟩
    exact absurd hzero (by decide)
  . refine (hempty.2 0 twoFunctions rfl (.inr List.mem_cons_self) 0 1 1).mpr ?_
    rintro ⟨hzero, _⟩
    exact absurd hzero (by decide)

theorem memInit_tableInit_of_dropped
    : ¬BehavesAsEmpty (memInit [none] emptyMemory 1 0 0 0) (memInit [some emptyDataSegment] emptyMemory 1 0 0 0)
        (some (.error .OutOfBounds)) 0 1 0 0
      ∧ ¬BehavesAsEmpty (tableInit noFunctions (fun _ => true) aliasingInstance [threeObjects] 4 0 0 0 0)
        (tableInit noFunctions (fun _ => true) (withEmptySegment aliasingInstance 0) [threeObjects] 4 0 0 0 0)
        (some ([threeObjects], .error .OutOfBounds)) 3 4 0 0 := by
  constructor
  . rintro ⟨heq, _⟩
    cases heq
  . rintro ⟨heq, _⟩
    cases heq

end Instance
end SpiderMonkey.Wasm
