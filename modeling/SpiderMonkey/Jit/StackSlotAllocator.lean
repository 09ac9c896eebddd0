import SpiderMonkey.Jit.Impl.StackSlotAllocator
import SpiderMonkey.Lib.Regions
import SpiderMonkey.Lib.Run

/-!
This module shows that the stack slots and stack areas of a frame never overlap.
-/

namespace SpiderMonkey

open List

namespace StackSlotAllocator

def freeSlot (width : Nat) (index : UInt32) : Region := ⟨index.toNat, width, width⟩

def freeSlots (allocator : StackSlotAllocator) : List Region :=
  allocator.normalSlots.map (freeSlot 4) ++ allocator.doubleSlots.map (freeSlot 8)

-- How many bytes to add to a height for its sum with a size to be a multiple of 8.
def padding (height size : Nat) : Nat := if (height + size) % 8 = 0 then 0 else 4

end StackSlotAllocator

-- The allocator with the regions that it has handed out, the last one first.
structure FrameSlots where
  allocator : StackSlotAllocator
  handedOut : List Region

namespace FrameSlots

open StackSlotAllocator

inductive Call where
  | allocateSlot (outcomes : AppendOutcomes) (defType : LDefinition.Kind)
  | allocateStackArea (outcomes : AppendOutcomes) (alloc : LStackArea)

def empty : FrameSlots := { allocator := .empty, handedOut := [] }

def step (boxing : Boxing) (s : FrameSlots) : Call → Option FrameSlots
  | .allocateSlot outcomes defType => do
    let width ← width boxing defType
    let (index, allocator) ← s.allocator.allocateSlot boxing outcomes defType
    some { allocator, handedOut := ⟨index.toNat, width.toNat, width.toNat⟩ :: s.handedOut }
  | .allocateStackArea outcomes alloc => do
    let (alloc, allocator) ← s.allocator.allocateStackArea outcomes alloc
    some { allocator, handedOut := ⟨alloc.base.toNat, alloc.size.toNat, alloc.alignment.toNat⟩ :: s.handedOut }

-- What the callers keep to: only an area is of the type that has no width, and its size is in words.
def Call.Allowed (boxing : Boxing) : Call → Prop
  | .allocateSlot _ defType => (width boxing defType).isSome = true
  | .allocateStackArea _ alloc => alloc.size % 4 = 0

-- The bytes that a call adds to the height.
def Call.growth (boxing : Boxing) (allocator : StackSlotAllocator) : Call → Nat
  | .allocateSlot _ defType =>
    let height := allocator.height.toNat
    match width boxing defType with
    | some 4 => if allocator.normalSlots = [] ∧ allocator.doubleSlots = [] then 4 else 0
    | some 8 => if allocator.doubleSlots = [] then padding height 0 + 8 else 0
    | some 16 =>
      let padded := height + padding height 0
      padding height 0 + ((if padded % 16 = 0 then 0 else 8) + 16)
    | _ => 0
  | .allocateStackArea _ alloc => padding allocator.height.toNat alloc.size.toNat + alloc.size.toNat

instance (boxing : Boxing) (call : Call) : Decidable (call.Allowed boxing) := by
  cases call <;> unfold Call.Allowed <;> infer_instance

def Fits (boxing : Boxing) (s : FrameSlots) (call : Call) : Prop :=
  call.Allowed boxing ∧ s.allocator.height.toNat + call.growth boxing s.allocator < 2 ^ 32

instance (boxing : Boxing) (s : FrameSlots) (call : Call) : Decidable (s.Fits boxing call) :=
  inferInstanceAs (Decidable (_ ∧ _))

end FrameSlots

namespace StackSlotAllocator

structure Keeps (handedOut : List Region) (allocator : StackSlotAllocator) : Prop where
  packed : Region.Packed allocator.height.toNat (handedOut ++ allocator.freeSlots)
  words : 4 ∣ allocator.height.toNat

variable {handedOut : List Region} {allocator : StackSlotAllocator} {outcomes : AppendOutcomes}
  {bytes index : UInt32}

theorem grow_height (bytes : UInt32) (hfits : allocator.height.toNat + bytes.toNat < 2 ^ 32)
    : (allocator.grow bytes).height.toNat = allocator.height.toNat + bytes.toNat := by
  apply Nat.mod_eq_of_lt
  exact hfits

theorem Keeps.grow {alignment : Nat} (bytes : UInt32) (h : Keeps handedOut allocator)
    (hfits : allocator.height.toNat + bytes.toNat < 2 ^ 32) (hbytes : 4 ∣ bytes.toNat)
    (haligned : alignment ∣ allocator.height.toNat + bytes.toNat)
    : Keeps (⟨(allocator.grow bytes).height.toNat, bytes.toNat, alignment⟩ :: handedOut) (allocator.grow bytes) := by
  have hheight := grow_height bytes hfits
  constructor
  . apply Region.Packed.above (r := ⟨_, _, _⟩) h.packed
    . exact hheight.ge
    change alignment ∣ (allocator.grow bytes).height.toNat
    rw [hheight]
    exact haligned
  . rw [hheight]
    exact Nat.dvd_add h.words hbytes

theorem Keeps.of_subperm {handedOut' : List Region} {allocator' : StackSlotAllocator} (h : Keeps handedOut allocator)
    (hsub : handedOut' ++ allocator'.freeSlots <+~ handedOut ++ allocator.freeSlots)
    (heq : allocator'.height = allocator.height)
    : Keeps handedOut' allocator' := by
  constructor <;> rw [heq]
  . exact h.packed.subperm hsub
  . exact h.words

theorem Keeps.addAvailableSlot (h : Keeps (freeSlot 4 index :: handedOut) allocator)
    : Keeps handedOut (allocator.addAvailableSlot outcomes index) := by
  rw [StackSlotAllocator.addAvailableSlot]
  split
  . refine h.of_subperm ?_ rfl
    exact perm_middle.subperm
  . refine h.of_subperm ?_ rfl
    exact (sublist_cons_self ..).subperm

theorem Keeps.addAvailableDoubleSlot (h : Keeps (freeSlot 8 index :: handedOut) allocator)
    : Keeps handedOut (allocator.addAvailableDoubleSlot outcomes index) := by
  rw [StackSlotAllocator.addAvailableDoubleSlot]
  split
  . refine h.of_subperm ?_ rfl
    simp only [freeSlots, map_cons, ← append_assoc]
    exact perm_middle.subperm
  . refine h.of_subperm ?_ rfl
    exact (sublist_cons_self ..).subperm

theorem Keeps.padSlot (h : Keeps handedOut allocator) (hfits : allocator.height.toNat + 4 < 2 ^ 32)
    : Keeps handedOut (allocator.padSlot outcomes) := by
  apply Keeps.addAvailableSlot
  apply h.grow 4 hfits
  . decide
  . exact Nat.dvd_add h.words (by decide)

theorem Keeps.padDoubleSlot (h : Keeps handedOut allocator) (hfits : allocator.height.toNat + 8 < 2 ^ 32)
    (haligned : 8 ∣ allocator.height.toNat)
    : Keeps handedOut (allocator.padDoubleSlot outcomes) := by
  apply Keeps.addAvailableDoubleSlot
  apply h.grow 8 hfits
  . decide
  . exact Nat.dvd_add haligned (by decide)

@[simp] theorem padSlot_height : (allocator.padSlot outcomes).height = (allocator.grow 4).height := by
  rw [StackSlotAllocator.padSlot, StackSlotAllocator.addAvailableSlot]
  split <;> rfl

@[simp] theorem padDoubleSlot_height : (allocator.padDoubleSlot outcomes).height = (allocator.grow 8).height := by
  rw [StackSlotAllocator.padDoubleSlot, StackSlotAllocator.addAvailableDoubleSlot]
  split <;> rfl

theorem add_mod_eight_eq_zero {height size : UInt32}
    : (height + size) % 8 = 0 ↔ (height.toNat + size.toNat) % 8 = 0 := by
  rw [← UInt32.toNat_inj, UInt32.toNat_mod, UInt32.toNat_add]
  change (height.toNat + size.toNat) % 2 ^ 32 % 8 = 0 ↔ _
  omega

-- After the padding, an area of the size ends at a multiple of 8.
theorem Keeps.pad (outcomes : AppendOutcomes) (size : UInt32) (h : Keeps handedOut allocator) (hsize : 4 ∣ size.toNat)
    (hfits : allocator.height.toNat + padding allocator.height.toNat size.toNat < 2 ^ 32) {padded : StackSlotAllocator}
    (hpadded : (if (allocator.height + size) % 8 ≠ 0 then allocator.padSlot outcomes else allocator) = padded)
    : Keeps handedOut padded ∧ 8 ∣ padded.height.toNat + size.toNat
        ∧ padded.height.toNat = allocator.height.toNat + padding allocator.height.toNat size.toNat := by
  have hwords := h.words
  rw [padding] at *
  simp only [ne_eq, add_mod_eight_eq_zero] at hpadded
  split at hfits
  next heq =>
    rw [if_neg (not_not_intro heq)] at hpadded
    subst hpadded
    rw [if_pos heq]
    exact ⟨h, Nat.dvd_of_mod_eq_zero heq, rfl⟩
  next hne =>
    rw [if_pos hne] at hpadded
    subst hpadded
    have hheight : (allocator.padSlot outcomes).height.toNat = allocator.height.toNat + 4 := by
      rw [padSlot_height]
      exact grow_height 4 hfits
    rw [if_neg hne, hheight]
    refine ⟨h.padSlot hfits, ?_, rfl⟩
    omega

theorem Keeps.allocateDoubleSlot (h : Keeps handedOut allocator) {index : UInt32} {allocator' : StackSlotAllocator}
    (hfits : allocator.doubleSlots = [] → allocator.height.toNat + (padding allocator.height.toNat 0 + 8) < 2 ^ 32)
    (heq : allocator.allocateDoubleSlot outcomes = (index, allocator'))
    : Keeps (freeSlot 8 index :: handedOut) allocator' := by
  rw [StackSlotAllocator.allocateDoubleSlot.eq_def] at heq
  split at heq
  next index doubleSlots hslots =>
    cases heq
    refine h.of_subperm ?_ rfl
    simp only [freeSlots, hslots, map_cons, ← append_assoc]
    exact perm_middle.symm.subperm
  next hslots =>
    cases heq
    have hfits := hfits hslots
    have hpad := h.pad outcomes 0 (by decide) (by simp only [UInt32.toNat_zero]; omega) (by rw [UInt32.add_zero])
    obtain ⟨hkeeps, haligned, hheight⟩ := hpad
    rw [UInt32.toNat_zero] at *
    apply hkeeps.grow 8
    . rw [hheight]
      change _ + 8 < _
      omega
    . decide
    . exact Nat.dvd_add haligned (by decide)

theorem Keeps.allocateSingleSlot (h : Keeps handedOut allocator) {allocator' : StackSlotAllocator}
    (hfits : allocator.normalSlots = [] ∧ allocator.doubleSlots = [] → allocator.height.toNat + 4 < 2 ^ 32)
    (heq : allocator.allocateSingleSlot outcomes = (index, allocator'))
    : Keeps (freeSlot 4 index :: handedOut) allocator' := by
  rw [StackSlotAllocator.allocateSingleSlot.eq_def] at heq
  split at heq
  next index normalSlots hslots =>
    cases heq
    refine h.of_subperm ?_ rfl
    rw [freeSlots, freeSlots, hslots]
    exact perm_middle.symm.subperm
  next hnormal =>
    split at heq
    next index doubleSlots hdouble =>
      cases heq
      -- The upper half of the double slot is handed out, and the lower half stays free.
      apply Keeps.addAvailableSlot
      have hfirst : Region.Packed allocator.height.toNat
          (freeSlot 8 index :: (handedOut ++ freeSlots { allocator with doubleSlots })) := by
        apply h.packed.subperm
        simp only [freeSlots, hdouble, map_cons, ← append_assoc]
        exact perm_middle.symm.subperm
      obtain ⟨hwidth, -, haligned⟩ := hfirst.placed _ mem_cons_self
      have hlower : (index - 4).toNat = index.toNat - 4 := by
        apply UInt32.toNat_sub_of_le
        apply UInt32.le_iff_toNat_le.mpr
        exact (show 4 ≤ 8 by decide).trans hwidth
      simp only [freeSlot] at hwidth haligned
      constructor
      . have hsplit := hfirst.split (freeSlot 4 (index - 4)) (freeSlot 4 index) rfl hlower rfl
          (by simp only [freeSlot]; omega) (by simp only [freeSlot, hlower]; omega)
        exact hsplit.subperm (Perm.swap ..).subperm
      . exact h.words
    next hdouble =>
      cases heq
      apply h.grow 4
      . exact hfits ⟨hnormal, hdouble⟩
      . decide
      . exact Nat.dvd_add h.words (by decide)

theorem Keeps.allocateQuadSlot (h : Keeps handedOut allocator) {allocator' : StackSlotAllocator} {padded : Nat}
    (hpadded : padded = allocator.height.toNat + padding allocator.height.toNat 0) (hfits : allocator.height.toNat
      + (padding allocator.height.toNat 0 + ((if padded % 16 = 0 then 0 else 8) + 16)) < 2 ^ 32)
    (heq : allocator.allocateQuadSlot outcomes = (index, allocator'))
    : Keeps (freeSlot 16 index :: handedOut) allocator' := by
  obtain ⟨hkeeps, haligned, hheight⟩ := h.pad outcomes 0 (by decide) (by simp only [UInt32.toNat_zero]; omega) rfl
  rw [StackSlotAllocator.allocateQuadSlot] at heq
  rw [UInt32.add_zero] at *
  generalize (if allocator.height % 8 ≠ 0 then allocator.padSlot outcomes else allocator) = even at *
  rw [UInt32.toNat_zero, ← hpadded] at hheight
  have hmod : even.height % 16 = 0 ↔ padded % 16 = 0 := by
    rw [← UInt32.toNat_inj, UInt32.toNat_mod, hheight]
    rfl
  simp only [ne_eq, hmod, ite_not] at heq
  split at hfits
  next heven =>
    rw [if_pos heven] at heq
    cases heq
    apply hkeeps.grow 16
    . rw [hheight]
      change _ + 16 < _
      omega
    . decide
    . rw [hheight]
      exact Nat.dvd_add (Nat.dvd_of_mod_eq_zero heven) (by decide)
  next hodd =>
    rw [if_neg hodd] at heq
    cases heq
    have hdouble : (even.padDoubleSlot outcomes).height.toNat = padded + 8 := by
      rw [padDoubleSlot_height, ← hheight]
      apply grow_height 8
      change _ + 8 < _
      omega
    rw [UInt32.toNat_zero, hheight] at haligned
    apply Keeps.grow 16
    . apply hkeeps.padDoubleSlot <;> omega
    . rw [hdouble]
      change _ + 16 < _
      omega
    . decide
    . rw [hdouble]
      change 16 ∣ _ + 16
      omega

theorem Keeps.allocateStackArea (outcomes : AppendOutcomes) (h : Keeps handedOut allocator) {alloc : LStackArea} (hsize : alloc.size % 4 = 0)
    (hfits : allocator.height.toNat + (padding allocator.height.toNat alloc.size.toNat + alloc.size.toNat) < 2 ^ 32)
    : ∃ base allocator', allocator.allocateStackArea outcomes alloc = some ({ alloc with base }, allocator')
        ∧ Keeps (⟨base.toNat, alloc.size.toNat, 8⟩ :: handedOut) allocator' := by
  have hwords : 4 ∣ alloc.size.toNat := by
    apply Nat.dvd_of_mod_eq_zero
    exact congrArg UInt32.toNat hsize
  obtain ⟨hkeeps, haligned, hheight⟩ := h.pad outcomes _ hwords (by omega) rfl
  rw [StackSlotAllocator.allocateStackArea, if_neg (not_not_intro hsize),
    if_neg (show ¬ alloc.alignment ≠ 8 from not_not_intro rfl)]
  generalize (if (allocator.height + alloc.size) % 8 ≠ 0 then allocator.padSlot outcomes else allocator) = even at *
  have hassert : (even.height + alloc.size) % alloc.alignment = 0 := by
    apply add_mod_eight_eq_zero.mpr
    exact Nat.mod_eq_zero_of_dvd haligned
  dsimp only
  rw [if_neg (not_not_intro hassert)]
  refine ⟨_, _, rfl, ?_⟩
  apply hkeeps.grow
  . rw [hheight]
    omega
  . exact hwords
  . exact haligned

end StackSlotAllocator

namespace FrameSlots

open StackSlotAllocator

theorem width_eq {boxing : Boxing} {kind : LDefinition.Kind} (h : (width boxing kind).isSome = true)
    : width boxing kind = some 4 ∨ width boxing kind = some 8 ∨ width boxing kind = some 16 := by
  cases boxing <;> cases kind <;> simp [width] at h ⊢

theorem step_keeps {boxing : Boxing} {s : FrameSlots} {call : Call} (h : Keeps s.handedOut s.allocator)
    (hfits : s.Fits boxing call) : ∃ s', s.step boxing call = some s' ∧ Keeps s'.handedOut s'.allocator := by
  obtain ⟨hallowed, hfits⟩ := hfits
  cases call with
  | allocateSlot outcomes defType =>
    rw [Call.growth] at hfits
    rcases width_eq hallowed with hwidth | hwidth | hwidth
    all_goals
      rw [step, allocateSlot, hwidth]
      rw [hwidth] at hfits
      refine ⟨_, rfl, ?_⟩
    . apply h.allocateSingleSlot _ rfl
      intro hempty
      rw [if_pos hempty] at hfits
      exact hfits
    . apply h.allocateDoubleSlot _ rfl
      intro hempty
      rw [if_pos hempty] at hfits
      exact hfits
    . exact h.allocateQuadSlot rfl hfits rfl
  | allocateStackArea outcomes alloc =>
    obtain ⟨base, allocator', heq, hkeeps⟩ := h.allocateStackArea outcomes hallowed hfits
    rw [step, heq]
    exact ⟨_, rfl, hkeeps⟩

-- No region handed out overlaps another one or a free slot, and each lies at its alignment below the stack height.
structure Apart (s : FrameSlots) : Prop where
  handedOut : s.handedOut.Pairwise Region.Apart
  placed : ∀ r ∈ s.handedOut, r.Placed s.allocator.stackHeight.toNat
  free : ∀ r ∈ s.handedOut, ∀ free ∈ s.allocator.freeSlots, r.Apart free

theorem slots_apart (boxing : Boxing) (calls : List Call)
    (hfits : ∀ done call t, done ++ [call] <+: calls → done.foldlM (step boxing) empty = some t → t.Fits boxing call)
    : ∃ s, calls.foldlM (step boxing) empty = some s ∧ s.Apart := by
  have hempty : Keeps empty.handedOut empty.allocator := ⟨Region.Packed.nil, by decide⟩
  obtain ⟨s, hrun, hkeeps⟩ := Run.exists_foldlM_of_meets (fun s call h hfits => step_keeps h hfits) hempty hfits
  obtain ⟨hhanded, -, hfree⟩ := pairwise_append.mp hkeeps.packed.disjoint
  refine ⟨s, hrun, hhanded, ?_, hfree⟩
  intro r hr
  exact hkeeps.packed.placed r (mem_append_left _ hr)

-- A slot that pads the height for the slot after it, one that is split, and an area.
theorem slots_apart_of_split : ∃ s, [
      Call.allocateSlot ⟨true, true⟩ .int32, .allocateSlot ⟨true, true⟩ .simd128, .allocateSlot ⟨true, true⟩ .float32,
      .allocateSlot ⟨true, true⟩ .int32, .allocateStackArea ⟨true, true⟩ { size := 12 }
    ].foldlM (step .punbox64) empty = some s ∧ s.Apart := by
  apply slots_apart
  have hsome := Option.some_get (show ([
      Call.allocateSlot ⟨true, true⟩ .int32, .allocateSlot ⟨true, true⟩ .simd128, .allocateSlot ⟨true, true⟩ .float32,
      .allocateSlot ⟨true, true⟩ .int32, .allocateStackArea ⟨true, true⟩ { size := 12 }
    ].foldlM (Run.guarded (step .punbox64) (Fits .punbox64)) empty).isSome = true by decide)
  exact (Run.allowed_of_guarded hsome.symm).2

-- Two areas of half the address space each leave the height at 0.
theorem not_slots_apart_of_wrap : ¬ ∀ (boxing : Boxing) (calls : List Call), (∀ call ∈ calls, call.Allowed boxing) →
    ∃ s, calls.foldlM (step boxing) empty = some s ∧ s.Apart := by
  intro h
  obtain ⟨s, hrun, -, hplaced, -⟩ := h .punbox64
    (replicate 2 (.allocateStackArea ⟨true, true⟩ { size := 2 ^ 31 })) (by decide)
  have hlast : s.handedOut.head? = some ⟨0, 2 ^ 31, 8⟩ := by
    cases hrun
    rfl
  have hwidth := (hplaced _ (mem_of_mem_head? hlast)).width_le
  exact absurd hwidth (by decide)

end FrameSlots

end SpiderMonkey
