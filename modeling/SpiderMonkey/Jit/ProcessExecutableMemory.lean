import Mathlib.Order.Interval.Finset.Nat
import SpiderMonkey.Jit.Impl.ProcessExecutableMemory
import SpiderMonkey.Lib.CyclicScan
import SpiderMonkey.Lib.Run

/-!
This module contains that the allocator of executable memory hands out no page twice and misses no hole: how its pages
and its count follow the ranges handed out, and the theorem about runs.
-/

open List

namespace SpiderMonkey

theorem MaxCodePages_eq_mul (wordSize : WordSize)
    : MaxCodePages wordSize = MaxCodePages wordSize / 32 * 32 := by
  cases wordSize <;> decide

theorem MaxCodeBytesPerProcess_eq_mul (wordSize : WordSize)
    : MaxCodeBytesPerProcess wordSize = MaxCodePages wordSize * ExecutableCodePageSize := by
  cases wordSize <;> decide

namespace PageBitSet

variable {NumBits : Nat}

theorem contains_init (index : Nat) : (init : PageBitSet NumBits).contains index = false :=
  BitSet.contains_replicate (by decide) index

theorem contains_insert (hNumBits : NumBits = NumBits / 32 * 32) (pages : PageBitSet NumBits) {index : Nat}
    (h : index < NumBits) (other : Nat)
    : (pages.insert index).contains other = (decide (other = index) || pages.contains other) := by
  rw [hNumBits] at h
  exact BitSet.contains_insert (by decide) pages.words_ h other

theorem contains_remove (hNumBits : NumBits = NumBits / 32 * 32) (pages : PageBitSet NumBits) {index : Nat}
    (h : index < NumBits) (other : Nat)
    : (pages.remove index).contains other = (!decide (other = index) && pages.contains other) := by
  rw [hNumBits] at h
  exact BitSet.contains_remove (by decide) pages.words_ h other

end PageBitSet

namespace ProcessExecutableMemory

variable {wordSize : WordSize}

variable {page numPages : Nat}

theorem contains_insertPages (pages : PageBitSet (MaxCodePages wordSize))
    (h : page + numPages ≤ MaxCodePages wordSize) (i : Nat)
    : (insertPages pages page numPages).contains i = (decide (page ≤ i ∧ i < page + numPages) || pages.contains i) := by
  induction numPages with
  | zero =>
    rw [decide_eq_false (by omega), Bool.false_or]
    rfl
  | succ numPages ih =>
    have hstep : insertPages pages page (numPages + 1)
        = (insertPages pages page numPages).insert (page + numPages) := by
      unfold insertPages
      rw [range_succ, foldl_append]
      rfl
    rw [hstep, PageBitSet.contains_insert (MaxCodePages_eq_mul wordSize) _ (by omega), ih (by omega),
      ← Bool.or_assoc, ← Bool.decide_or]
    congr 2
    rw [eq_iff_iff]
    omega

theorem contains_removePages (pages : PageBitSet (MaxCodePages wordSize))
    (h : page + numPages ≤ MaxCodePages wordSize) (i : Nat)
    : (removePages pages page numPages).contains i
        = (!decide (page ≤ i ∧ i < page + numPages) && pages.contains i) := by
  induction numPages with
  | zero =>
    rw [decide_eq_false (by omega), Bool.not_false, Bool.true_and]
    rfl
  | succ numPages ih =>
    have hstep : removePages pages page (numPages + 1)
        = (removePages pages page numPages).remove (page + numPages) := by
      unfold removePages
      rw [range_succ, foldl_append]
      rfl
    rw [hstep, PageBitSet.contains_remove (MaxCodePages_eq_mul wordSize) _ (by omega), ih (by omega),
      ← Bool.and_assoc, ← Bool.not_or, ← Bool.decide_or]
    congr 3
    rw [eq_iff_iff]
    omega

def takenPages (pages : PageBitSet (MaxCodePages wordSize)) : Finset Nat :=
  (Finset.range (MaxCodePages wordSize)).filter fun i => pages.contains i = true

theorem mem_takenPages (pages : PageBitSet (MaxCodePages wordSize)) (i : Nat)
    : i ∈ takenPages pages ↔ i < MaxCodePages wordSize ∧ pages.contains i = true := by
  rw [takenPages, Finset.mem_filter, Finset.mem_range]

theorem available_iff (memory : ProcessExecutableMemory wordSize) (numPages page : Nat)
    : memory.available numPages page = true
        ↔ ∀ i, page ≤ i → i < page + numPages → memory.pages_.contains i = false := by
  unfold available
  rw [all_eq_true]
  constructor
  . intro h i hpage hi
    have hoffset := h (i - page) (mem_range.mpr (by omega))
    rw [show page + (i - page) = i by omega] at hoffset
    simpa using hoffset
  . intro h j hj
    rw [mem_range] at hj
    rw [h (page + j) (by omega) (by omega), Bool.not_false]

variable {memory : ProcessExecutableMemory wordSize}

theorem card_insertPages
    (h : page + numPages ≤ MaxCodePages wordSize) (havailable : memory.available numPages page = true)
    : (takenPages (insertPages memory.pages_ page numPages)).card = (takenPages memory.pages_).card + numPages := by
  rw [available_iff] at havailable
  have hunion : takenPages (insertPages memory.pages_ page numPages)
      = takenPages memory.pages_ ∪ Finset.Ico page (page + numPages) := by
    ext i
    rw [mem_takenPages, contains_insertPages _ h, Finset.mem_union, mem_takenPages, Finset.mem_Ico,
      Bool.or_eq_true, decide_eq_true_iff]
    constructor
    . rintro ⟨hi, hin | hold⟩
      . exact Or.inr hin
      . exact Or.inl ⟨hi, hold⟩
    rintro (⟨hi, hold⟩ | hin)
    . exact ⟨hi, Or.inr hold⟩
    . exact ⟨by omega, Or.inl hin⟩
  have hdisjoint : Disjoint (takenPages memory.pages_) (Finset.Ico page (page + numPages)) := by
    rw [Finset.disjoint_left]
    intro i htaken hin
    rw [mem_takenPages] at htaken
    rw [Finset.mem_Ico] at hin
    have hfree := havailable i hin.left hin.right
    rw [htaken.right] at hfree
    cases hfree
  rw [hunion, Finset.card_union_of_disjoint hdisjoint, Nat.card_Ico]
  omega

theorem card_removePages {pages : PageBitSet (MaxCodePages wordSize)} (h : page + numPages ≤ MaxCodePages wordSize)
    (htaken : ∀ i, page ≤ i → i < page + numPages → pages.contains i = true)
    : (takenPages (removePages pages page numPages)).card = (takenPages pages).card - numPages := by
  have hsdiff : takenPages (removePages pages page numPages)
      = takenPages pages \ Finset.Ico page (page + numPages) := by
    ext i
    rw [mem_takenPages, contains_removePages _ h, Finset.mem_sdiff, mem_takenPages, Finset.mem_Ico,
      Bool.and_eq_true, Bool.not_eq_true', decide_eq_false_iff_not, and_assoc, and_comm (a := ¬ _)]
  have hsubset : Finset.Ico page (page + numPages) ⊆ takenPages pages := by
    intro i hi
    rw [Finset.mem_Ico] at hi
    rw [mem_takenPages]
    exact ⟨by omega, htaken i hi.left hi.right⟩
  rw [hsdiff, Finset.card_sdiff_of_subset hsubset, Nat.card_Ico]
  omega

theorem findPages_eq_scan (memory : ProcessExecutableMemory wordSize)
    (h : numPages ≤ MaxCodePages wordSize) (rounds page : Nat)
    : memory.findPages numPages rounds page
        = CyclicScan.scan (MaxCodePages wordSize - numPages) (memory.available numPages) rounds page := by
  induction rounds generalizing page with
  | zero => rfl
  | succ rounds ih =>
    have hnormal : (if page + numPages > MaxCodePages wordSize then 0 else page)
        = CyclicScan.normalize (MaxCodePages wordSize - numPages) page := by
      unfold CyclicScan.normalize
      congr 1
      rw [eq_iff_iff]
      omega
    unfold findPages CyclicScan.scan
    dsimp only
    rw [hnormal, ih]

def Apart (r r' : Nat × Nat) : Prop := r.1 + r.2 ≤ r'.1 ∨ r'.1 + r'.2 ≤ r.1

theorem Apart.symm (h : Apart r r') : Apart r' r := Or.symm h

def HasPage (base : Nat) (r : Nat × Nat) (i : Nat) : Prop :=
  r.1 ≤ base + i * ExecutableCodePageSize ∧ base + (i + 1) * ExecutableCodePageSize ≤ r.1 + r.2

def Paged (wordSize : WordSize) (base : Nat) (r : Nat × Nat) : Prop :=
  ∃ page numPages, 0 < numPages ∧ page + numPages ≤ MaxCodePages wordSize
    ∧ r = (base + page * ExecutableCodePageSize, numPages * ExecutableCodePageSize)

structure Exact (memory : ProcessExecutableMemory wordSize) (live : List (Nat × Nat)) : Prop where
  paged : ∀ r ∈ live, Paged wordSize memory.base_ r
  apart : live.Pairwise Apart
  contains : ∀ i, i < MaxCodePages wordSize →
    (memory.pages_.contains i = true ↔ ∃ r ∈ live, HasPage memory.base_ r i)
  pagesAllocated : memory.pagesAllocated_ = (takenPages memory.pages_).card

theorem hasPage_iff (base page numPages i : Nat)
    : HasPage base (base + page * ExecutableCodePageSize, numPages * ExecutableCodePageSize) i
        ↔ page ≤ i ∧ i < page + numPages := by
  unfold HasPage ExecutableCodePageSize
  dsimp only
  omega

theorem apart_iff (base page numPages page' numPages' : Nat)
    : Apart (base + page * ExecutableCodePageSize, numPages * ExecutableCodePageSize)
          (base + page' * ExecutableCodePageSize, numPages' * ExecutableCodePageSize)
        ↔ page + numPages ≤ page' ∨ page' + numPages' ≤ page := by
  unfold Apart ExecutableCodePageSize
  dsimp only
  omega

theorem Exact.init (base : Nat) : Exact (ProcessExecutableMemory.init base : ProcessExecutableMemory wordSize) [] where
  paged := by
    intro r hr
    cases hr
  apart := List.Pairwise.nil
  contains := by
    intro i _
    unfold ProcessExecutableMemory.init
    rw [PageBitSet.contains_init]
    simp
  pagesAllocated := by
    have hempty : takenPages (PageBitSet.init : PageBitSet (MaxCodePages wordSize)) = ∅ := by
      ext i
      rw [mem_takenPages, PageBitSet.contains_init]
      simp
    unfold ProcessExecutableMemory.init
    dsimp only
    rw [hempty, Finset.card_empty]

variable {live : List (Nat × Nat)}

theorem Exact.perm (h : Exact memory live) (hperm : live.Perm live') : Exact memory live' where
  paged := by
    intro r hr
    exact h.paged r (hperm.mem_iff.mpr hr)
  apart := (hperm.pairwise_iff Apart.symm).mp h.apart
  contains := by
    intro i hi
    rw [h.contains i hi]
    simp only [hperm.mem_iff]
  pagesAllocated := h.pagesAllocated

theorem Exact.apart_of_available (h : Exact memory live) (hpositive : 0 < numPages)
    (hpages : page + numPages ≤ MaxCodePages wordSize) (havailable : memory.available numPages page = true)
    (hr : r ∈ live)
    : Apart (memory.base_ + page * ExecutableCodePageSize, numPages * ExecutableCodePageSize) r := by
  obtain ⟨page', numPages', hpositive', hpages', rfl⟩ := h.paged r hr
  rw [available_iff] at havailable
  rw [apart_iff]
  by_contra hoverlap
  have hfree := havailable (max page page') (by omega) (by omega)
  have htaken := (h.contains (max page page') (by omega)).mpr ⟨_, hr, (hasPage_iff _ _ _ _).mpr (by omega)⟩
  rw [hfree] at htaken
  cases htaken

theorem Exact.markPages (h : Exact memory live) (hpositive : 0 < numPages)
    (hpages : page + numPages ≤ MaxCodePages wordSize) (havailable : memory.available numPages page = true)
    : Exact (memory.markPages page numPages)
        ((memory.base_ + page * ExecutableCodePageSize, numPages * ExecutableCodePageSize) :: live) where
  paged := by
    intro r hr
    rcases mem_cons.mp hr with rfl | hr
    . exact ⟨page, numPages, hpositive, hpages, rfl⟩
    . exact h.paged r hr
  apart := pairwise_cons.mpr ⟨fun _ hr => h.apart_of_available hpositive hpages havailable hr, h.apart⟩
  contains := by
    intro i hi
    unfold ProcessExecutableMemory.markPages
    dsimp only
    rw [contains_insertPages _ hpages, Bool.or_eq_true, decide_eq_true_iff, h.contains i hi,
      exists_mem_cons_iff, hasPage_iff]
  pagesAllocated := by
    unfold ProcessExecutableMemory.markPages
    dsimp only
    rw [card_insertPages hpages havailable, h.pagesAllocated]

theorem Exact.deallocate {addr bytes : Nat} (h : Exact memory ((addr, bytes) :: live))
    : ∃ memory', memory.deallocate addr bytes = some memory' ∧ memory'.base_ = memory.base_ ∧ Exact memory' live := by
  obtain ⟨page, numPages, hpositive, hpages, heq⟩ := h.paged _ mem_cons_self
  cases heq
  have hvalid : memory.assertValidAddress (memory.base_ + page * ExecutableCodePageSize)
      (numPages * ExecutableCodePageSize) = true := by
    unfold assertValidAddress
    rw [decide_eq_true_iff, MaxCodeBytesPerProcess_eq_mul]
    unfold ExecutableCodePageSize
    omega
  have hfirst : (memory.base_ + page * ExecutableCodePageSize - memory.base_) / ExecutableCodePageSize = page := by
    rw [Nat.add_sub_cancel_left]
    exact Nat.mul_div_cancel _ (by decide)
  have hnum : numPages * ExecutableCodePageSize / ExecutableCodePageSize = numPages :=
    Nat.mul_div_cancel _ (by decide)
  obtain ⟨hapart, hrest⟩ := pairwise_cons.mp h.apart
  unfold ProcessExecutableMemory.deallocate
  rw [if_pos hvalid, hfirst, hnum]
  refine ⟨_, rfl, rfl, ?_⟩
  constructor
  . intro r hr
    exact h.paged r (mem_cons_of_mem _ hr)
  . exact hrest
  . intro i hi
    dsimp only
    rw [contains_removePages _ hpages, Bool.and_eq_true, Bool.not_eq_true', decide_eq_false_iff_not,
      h.contains i hi, exists_mem_cons_iff, hasPage_iff]
    constructor
    . rintro ⟨hout, hin | hin⟩
      . exact absurd hin hout
      . exact hin
    rintro ⟨r, hr, hin⟩
    refine ⟨?_, Or.inr ⟨r, hr, hin⟩⟩
    have hdisjoint := hapart r hr
    obtain ⟨page', numPages', _, _, rfl⟩ := h.paged r (mem_cons_of_mem _ hr)
    rw [apart_iff] at hdisjoint
    rw [hasPage_iff] at hin
    omega
  . dsimp only
    rw [card_removePages hpages, h.pagesAllocated]
    intro i hpage hi
    rw [h.contains i (by omega)]
    exact ⟨_, mem_cons_self, (hasPage_iff _ _ _ _).mpr ⟨hpage, hi⟩⟩

def NoHole (memory : ProcessExecutableMemory wordSize) (numPages : Nat) : Prop :=
  ∀ page, page + numPages ≤ MaxCodePages wordSize →
    ∃ i, page ≤ i ∧ i < page + numPages ∧ memory.pages_.contains i = true

theorem findPages_sound {rounds start : Nat}
    (hnum : numPages ≤ MaxCodePages wordSize) (h : memory.findPages numPages rounds start = some page)
    : page + numPages ≤ MaxCodePages wordSize ∧ memory.available numPages page = true := by
  rw [findPages_eq_scan memory hnum] at h
  obtain ⟨hle, havailable⟩ := CyclicScan.scan_sound h
  exact ⟨by omega, havailable⟩

theorem noHole_of_findPages {start : Nat}
    (hpositive : 0 < numPages) (hnum : numPages ≤ MaxCodePages wordSize)
    (h : memory.findPages numPages (MaxCodePages wordSize) start = none)
    : memory.NoHole numPages := by
  rw [findPages_eq_scan memory hnum] at h
  intro page hpage
  have hnot := CyclicScan.scan_complete h (by omega) (show page ≤ MaxCodePages wordSize - numPages by omega)
  by_contra hfree
  have havailable : memory.available numPages page = true := by
    rw [available_iff]
    intro i hle hlt
    rw [← Bool.not_eq_true]
    intro htaken
    exact hfree ⟨i, hle, hlt, htaken⟩
  rw [havailable] at hnot
  cases hnot

theorem not_noHole_of_available
    (hpage : page + numPages ≤ MaxCodePages wordSize) (h : memory.available numPages page = true)
    : ¬ memory.NoHole numPages := by
  intro hnone
  obtain ⟨i, hle, hlt, htaken⟩ := hnone page hpage
  rw [available_iff] at h
  rw [h i hle hlt] at htaken
  cases htaken

def State.afterAllocate (live : List (Nat × Nat)) (bytes : Nat) : Option Nat → List (Nat × Nat)
  | none => live
  | some p => (p, bytes) :: live

theorem Exact.allocate
    (h : Exact memory live) {bytes : Nat} (hpositive : 0 < bytes) (hmod : bytes % ExecutableCodePageSize = 0)
    (random : BitVec 64) (commits : Bool)
    : ∃ result memory', memory.allocate bytes random commits = some (result, memory')
        ∧ (memory'.base_ = memory.base_ ∧ Exact memory' (State.afterAllocate live bytes result))
        ∧ (result = none
            ↔ commits = false ∨ memory.pagesAllocated_ + bytes / ExecutableCodePageSize ≥ MaxCodePages wordSize
              ∨ memory.NoHole (bytes / ExecutableCodePageSize)) := by
  have hbytes : bytes / ExecutableCodePageSize * ExecutableCodePageSize = bytes :=
    Nat.div_mul_cancel (Nat.dvd_of_mod_eq_zero hmod)
  have hnum : 0 < bytes / ExecutableCodePageSize := by
    apply Nat.pos_of_ne_zero
    intro hzero
    rw [hzero] at hbytes
    omega
  unfold ProcessExecutableMemory.allocate
  dsimp only
  split
  next hfull => exact ⟨none, memory, rfl, ⟨rfl, h⟩, by simp [hfull]⟩
  next hfull =>
    split
    next hfind =>
      have hhole := noHole_of_findPages hnum (by omega) hfind
      exact ⟨none, memory, rfl, ⟨rfl, h⟩, by simp [hhole]⟩
    next page hfind =>
      obtain ⟨hpage, havailable⟩ := findPages_sound (by omega) hfind
      have hmarked := h.markPages hnum hpage havailable
      rw [hbytes] at hmarked
      have hhole := not_noHole_of_available hpage havailable
      cases commits with
      | true =>
        rw [if_pos rfl]
        exact ⟨some _, _, rfl, ⟨rfl, hmarked⟩, by simp [hfull, hhole]⟩
      | false =>
        obtain ⟨memory', heq, hbase, hexact⟩ := hmarked.deallocate
        have heq' : (memory.markPages page (bytes / ExecutableCodePageSize)).deallocate
            ((memory.markPages page (bytes / ExecutableCodePageSize)).base_ + page * ExecutableCodePageSize)
            bytes = some memory' := heq
        rw [if_neg Bool.false_ne_true, heq', Option.map_some]
        exact ⟨none, memory', rfl, ⟨hbase, hexact⟩, by simp⟩

theorem exists_step {base : Nat} {state : State wordSize}
    (h : state.memory.base_ = base ∧ Exact state.memory state.live) {call : Call} (hmeets : state.Meets call)
    : ∃ state', state.step call = some state' ∧ state'.memory.base_ = base ∧ Exact state'.memory state'.live := by
  obtain ⟨rfl, hexact⟩ := h
  cases call with
  | allocate bytes random commits =>
    obtain ⟨hpositive, hmod⟩ := hmeets
    obtain ⟨result, memory', heq, hkept, _⟩ := hexact.allocate hpositive hmod random commits
    refine ⟨⟨memory', State.afterAllocate state.live bytes result⟩, ?_, hkept⟩
    unfold State.step
    dsimp only
    rw [heq, Option.map_some]
    cases result <;> rfl
  | deallocate addr bytes =>
    have hmem : (addr, bytes) ∈ state.live := hmeets
    obtain ⟨memory', heq, hkept⟩ := (hexact.perm (perm_cons_erase hmem)).deallocate
    refine ⟨⟨memory', state.live.erase (addr, bytes)⟩, ?_, hkept⟩
    unfold State.step
    dsimp only
    rw [heq, Option.map_some]

end ProcessExecutableMemory

end SpiderMonkey

namespace SpiderMonkey.ProcessExecutableMemory

theorem executableMemory_exact (wordSize : WordSize) (base : Nat) (calls : List Call)
    (hmeets : ∀ done call (state : State wordSize), done ++ [call] <+: calls →
      done.foldlM State.step (State.init base) = some state → state.Meets call)
    : ∃ state : State wordSize, calls.foldlM State.step (State.init base) = some state ∧ Exact state.memory state.live
        ∧ ∀ bytes random commits, state.Meets (.allocate bytes random commits) →
          ∃ result memory', state.memory.allocate bytes random commits = some (result, memory') ∧ (result = none
                ↔ commits = false
                  ∨ state.memory.pagesAllocated_ + bytes / ExecutableCodePageSize ≥ MaxCodePages wordSize
                  ∨ state.memory.NoHole (bytes / ExecutableCodePageSize)) := by
  have hrun : ∃ state : State wordSize, calls.foldlM State.step (State.init base) = some state
      ∧ state.memory.base_ = base ∧ Exact state.memory state.live := by
    apply Run.exists_foldlM_of_meets _ _ hmeets
    . intro state call h hcall
      exact exists_step h hcall
    . exact ⟨rfl, Exact.init base⟩
  obtain ⟨state, hstate, _, hexact⟩ := hrun
  refine ⟨state, hstate, hexact, ?_⟩
  rintro bytes random commits ⟨hpositive, hmod⟩
  obtain ⟨result, memory', heq, _, hnull⟩ := hexact.allocate hpositive hmod random commits
  exact ⟨result, memory', heq, hnull⟩

theorem executableMemory_exact_failed_commit
    : ∃ state : State .bits64,
        [Call.allocate 131072 1#64 true, Call.allocate 65536 0#64 false].foldlM State.step (State.init 4096)
          = some state
        ∧ Exact state.memory state.live := by
  have hmeets : ∀ done call (state : State .bits64),
      done ++ [call] <+: [Call.allocate 131072 1#64 true, Call.allocate 65536 0#64 false] →
      done.foldlM State.step (State.init 4096) = some state → state.Meets call := by
    intro done call state hprefix _
    have hcall := hprefix.subset (mem_append_right done (mem_singleton_self call))
    rw [mem_pair] at hcall
    rcases hcall with rfl | rfl
    . exact ⟨by decide, by decide⟩
    . exact ⟨by decide, by decide⟩
  obtain ⟨state, hrun, hexact, _⟩ := executableMemory_exact .bits64 4096 _ hmeets
  exact ⟨state, hrun, hexact⟩

end SpiderMonkey.ProcessExecutableMemory
