import Mathlib.Algebra.BigOperators.Group.Finset.Piecewise
import SpiderMonkey.Gc.Impl.Chunk
import SpiderMonkey.Lib.PointerList

/-!
This module contains how the operations of a chunk keep the accounts of its arenas.
-/

namespace SpiderMonkey

open List

namespace BitArray

variable {nbits : Nat}

theorem lt_numSlots_mul {offset : Nat} (h : offset < nbits) : offset < numSlots nbits * 32 := by
  unfold numSlots
  split <;> omega

theorem get_set (bits : BitArray nbits) {offset : Nat} (h : offset < nbits) (other : Nat)
    : (bits.set offset).get other = (decide (other = offset) || bits.get other) :=
  BitSet.contains_insert (by decide) bits.map (lt_numSlots_mul h) other

theorem get_unset (bits : BitArray nbits) {offset : Nat} (h : offset < nbits) (other : Nat)
    : (bits.unset offset).get other = (!decide (other = offset) && bits.get other) :=
  BitSet.contains_remove (by decide) bits.map (lt_numSlots_mul h) other

end BitArray

namespace Gc

theorem ArenasPerChunk_le (size : ChunkSize) : 2 ≤ ArenasPerChunk size ∧ ArenasPerChunk size ≤ 252 := by
  cases size <;> decide

theorem get_clear (size : ChunkSize) (i : Nat) (h : i < ArenasPerChunk size)
    : (BitArray.clear true : BitArray (ArenasPerChunk size)).get i = true := by
  revert i
  cases size <;> decide +kernel

theorem toNat_add_one {x : UInt32} (h : x.toNat < 2 ^ 32 - 1) : (x + 1).toNat = x.toNat + 1 := by
  rw [UInt32.toNat_add, UInt32.toNat_one]
  omega

theorem toNat_sub_one {x : UInt32} (h : 0 < x.toNat) : (x - 1).toNat = x.toNat - 1 := by
  rw [UInt32.toNat_sub, UInt32.toNat_one]
  have := x.toNat_lt
  omega

theorem toNat_ArenasPerChunk (size : ChunkSize)
    : (UInt32.ofNat (ArenasPerChunk size)).toNat = ArenasPerChunk size := by
  cases size <;> rfl

namespace Chunk

variable {size : ChunkSize}

def decommitted (chunk : Chunk size) : Finset Nat :=
  (Finset.range (ArenasPerChunk size)).filter fun i => chunk.committed i = false

theorem mem_decommitted (chunk : Chunk size) (i : Nat)
    : i ∈ chunk.decommitted ↔ i < ArenasPerChunk size ∧ chunk.committed i = false := by
  rw [decommitted, Finset.mem_filter, Finset.mem_range]

structure Exact (chunk : Chunk size) (taken : Nat → Prop) : Prop where
  committed : ∀ i, taken i → i < ArenasPerChunk size ∧ chunk.committed i = true
  freeList : ∃ l, PointerList.IsList (fun i => (chunk.arenas i).next) chunk.info.freeArenasHead l ∧ l.Nodup
    ∧ (∀ i, i ∈ l ↔ i < ArenasPerChunk size ∧ chunk.committed i = true ∧ ¬ taken i)
    ∧ l.length = chunk.info.numArenasFreeCommitted.toNat
  decommittedArenas : ∀ i, i < ArenasPerChunk size →
    (chunk.decommittedArenas.get i = true ↔ chunk.committed i = false)
  numArenasFree :
    chunk.info.numArenasFree.toNat = chunk.info.numArenasFreeCommitted.toNat + chunk.decommitted.card

structure Core (chunk : Chunk size) (taken : Nat → Prop) : Prop extends Exact chunk taken where
  notAllocated : ∀ i, i < ArenasPerChunk size → chunk.committed i = true → ¬ taken i →
    (chunk.arenas i).allocated = false
  offset : chunk.info.lastDecommittedArenaOffset.toNat ≤ ArenasPerChunk size

variable {chunk : Chunk size} {taken : Nat → Prop}

theorem Core.congr (h : chunk.Core taken) (htaken : ∀ i, taken i ↔ taken' i) : chunk.Core taken' := by
  have heq : taken = taken' := funext fun i => propext (htaken i)
  rw [← heq]
  exact h

theorem Exact.exists_card (h : chunk.Exact taken) {used : Finset Nat}
    (hused : ∀ i ∈ used, taken i)
    : ∃ accounted : Finset Nat, accounted.card = used.card + chunk.info.numArenasFree.toNat
        ∧ ∀ i, i ∈ accounted ↔ i ∈ used ∨ (i < ArenasPerChunk size ∧ ¬ taken i) := by
  obtain ⟨l, _, hnodup, hmem, hlength⟩ := h.freeList
  have hfree : ∀ i, i ∈ l.toFinset ∪ chunk.decommitted ↔ i < ArenasPerChunk size ∧ ¬ taken i := by
    intro i
    rw [Finset.mem_union, mem_toFinset, hmem, mem_decommitted]
    constructor
    . rintro (⟨hlt, _, hnot⟩ | ⟨hlt, hcommitted⟩)
      . exact ⟨hlt, hnot⟩
      refine ⟨hlt, fun htaken => ?_⟩
      rw [(h.committed i htaken).2] at hcommitted
      cases hcommitted
    . rintro ⟨hlt, hnot⟩
      cases hcommitted : chunk.committed i with
      | true => exact Or.inl ⟨hlt, rfl, hnot⟩
      | false => exact Or.inr ⟨hlt, rfl⟩
  have hdisjoint : Disjoint l.toFinset chunk.decommitted := by
    rw [Finset.disjoint_left]
    intro i hi hd
    rw [mem_toFinset, hmem] at hi
    rw [mem_decommitted, hi.2.1] at hd
    cases hd.2
  have hdisjoint' : Disjoint used (l.toFinset ∪ chunk.decommitted) := by
    rw [Finset.disjoint_left]
    intro i hi hd
    exact ((hfree i).mp hd).2 (hused i hi)
  refine ⟨used ∪ (l.toFinset ∪ chunk.decommitted), ?_, ?_⟩
  . rw [Finset.card_union_of_disjoint hdisjoint', Finset.card_union_of_disjoint hdisjoint,
      toFinset_card_of_nodup hnodup, hlength, ← h.numArenasFree]
  . intro i
    rw [Finset.mem_union, hfree]

theorem Exact.card_le (h : chunk.Exact taken) (used : Finset Nat) (hused : ∀ i ∈ used, taken i)
    : used.card + chunk.info.numArenasFree.toNat ≤ ArenasPerChunk size := by
  obtain ⟨accounted, hcard, hmem⟩ := h.exists_card hused
  rw [← hcard, ← Finset.card_range (ArenasPerChunk size)]
  apply Finset.card_le_card
  intro i hi
  rw [Finset.mem_range]
  rcases (hmem i).mp hi with hi | hi
  . exact (h.committed i (hused i hi)).1
  . exact hi.1

theorem Exact.card_eq (h : chunk.Exact taken) (used : Finset Nat) (hused : ∀ i, i ∈ used ↔ taken i)
    : used.card + chunk.info.numArenasFree.toNat = ArenasPerChunk size := by
  obtain ⟨accounted, hcard, hmem⟩ := h.exists_card fun i hi => (hused i).mp hi
  rw [← hcard, ← Finset.card_range (ArenasPerChunk size)]
  congr 1
  ext i
  rw [Finset.mem_range, hmem, hused]
  constructor
  . rintro (hi | hi)
    . exact (h.committed i hi).1
    . exact hi.1
  intro hlt
  by_cases hi : taken i
  . exact Or.inl hi
  . exact Or.inr ⟨hlt, hi⟩

theorem Exact.numArenasFree_le (h : chunk.Exact taken)
    : chunk.info.numArenasFree.toNat ≤ ArenasPerChunk size := by
  have hcard := h.card_le ∅ (by simp)
  rw [Finset.card_empty] at hcard
  omega

variable {i : Nat}

theorem Exact.numArenasFree_lt (h : chunk.Exact taken)
    (hi : taken i) : chunk.info.numArenasFree.toNat < ArenasPerChunk size := by
  have hcard := h.card_le {i} (by simpa using hi)
  rw [Finset.card_singleton] at hcard
  omega

theorem Core.setArena (h : chunk.Core taken) (hi : taken i) (arena : Arena) : (chunk.setArena i arena).Core taken := by
  have hother : ∀ j, ¬ taken j → Function.update chunk.arenas i arena j = chunk.arenas j := by
    intro j hj
    apply Function.update_of_ne
    rintro rfl
    exact hj hi
  obtain ⟨l, hlist, hnodup, hmem, hlength⟩ := h.freeList
  constructor
  . refine ⟨h.committed, ⟨l, ?_, hnodup, hmem, hlength⟩, h.decommittedArenas, h.numArenasFree⟩
    apply hlist.congr
    intro j hj
    show (Function.update chunk.arenas i arena j).next = (chunk.arenas j).next
    rw [hother j ((hmem j).mp hj).2.2]
  . intro j hlt hcommitted hj
    show (Function.update chunk.arenas i arena j).allocated = false
    rw [hother j hj]
    exact h.notAllocated j hlt hcommitted hj
  . exact h.offset

theorem Core.push {chunk : Chunk size} {taken : Nat → Prop} (h : chunk.Core taken) {i : Nat} (hi : taken i)
    (hnot : (chunk.arenas i).allocated = false)
    : Core { chunk.setArena i { chunk.arenas i with next := chunk.info.freeArenasHead } with
        info := { chunk.info with
          freeArenasHead := some i
          numArenasFreeCommitted := chunk.info.numArenasFreeCommitted + 1
          numArenasFree := chunk.info.numArenasFree + 1 } } (fun j => taken j ∧ j ≠ i) := by
  obtain ⟨l, hlist, hnodup, hmem, hlength⟩ := h.freeList
  obtain ⟨hlt, hcommitted⟩ := h.committed i hi
  have hnew : i ∉ l := fun hl => ((hmem i).mp hl).2.2 hi
  have hfree := h.numArenasFree_lt hi
  have hbound := ArenasPerChunk_le size
  have hsum := h.numArenasFree
  have hcount : (chunk.info.numArenasFreeCommitted + 1).toNat = chunk.info.numArenasFreeCommitted.toNat + 1 :=
    toNat_add_one (by omega)
  constructor
  . constructor
    . rintro j ⟨hj, _⟩
      exact h.committed j hj
    . refine ⟨i :: l, ?_, nodup_cons.mpr ⟨hnew, hnodup⟩, ?_, ?_⟩
      . have hpushed := hlist.push hnew
        apply hpushed.congr
        intro j _
        by_cases hj : j = i
        . subst hj
          simp [Chunk.setArena]
        . simp [Chunk.setArena, Function.update_of_ne hj]
      . intro j
        rw [mem_cons, hmem]
        by_cases hj : j = i
        . subst hj
          simp [Chunk.setArena, hlt, hcommitted]
        . simp [Chunk.setArena, hj]
      . rw [length_cons, hlength]
        exact hcount.symm
    . exact h.decommittedArenas
    . show (chunk.info.numArenasFree + 1).toNat = (chunk.info.numArenasFreeCommitted + 1).toNat + chunk.decommitted.card
      rw [hcount, toNat_add_one (by omega)]
      omega
  . intro j hjlt hjcommitted hj
    by_cases heq : j = i
    . subst heq
      simpa [Chunk.setArena, Arena.allocated] using hnot
    . have hother : ¬ taken j := fun htaken => hj ⟨htaken, heq⟩
      simpa [Chunk.setArena, Function.update_of_ne heq] using h.notAllocated j hjlt hjcommitted hother
  . exact h.offset

theorem Core.pop (h : chunk.Core taken) (hpositive : 0 < chunk.info.numArenasFreeCommitted.toNat)
    : ∃ i, chunk.info.freeArenasHead = some i ∧ i < ArenasPerChunk size ∧ chunk.committed i = true ∧ ¬ taken i
        ∧ Core { chunk with
            info := { chunk.info with
              freeArenasHead := (chunk.arenas i).next
              numArenasFreeCommitted := chunk.info.numArenasFreeCommitted - 1
              numArenasFree := chunk.info.numArenasFree - 1 } } (fun j => j = i ∨ taken j) := by
  obtain ⟨l, hlist, hnodup, hmem, hlength⟩ := h.freeList
  cases l with
  | nil =>
    rw [length_nil] at hlength
    omega
  | cons i l =>
    obtain ⟨hhead, hrest⟩ := hlist
    obtain ⟨hnew, hnodup⟩ := nodup_cons.mp hnodup
    obtain ⟨hlt, hcommitted, hnot⟩ := (hmem i).mp mem_cons_self
    have hsum := h.numArenasFree
    have hcount := toNat_sub_one hpositive
    refine ⟨i, hhead, hlt, hcommitted, hnot, ?_⟩
    constructor
    . constructor
      . rintro j (rfl | hj)
        . exact ⟨hlt, hcommitted⟩
        . exact h.committed j hj
      . refine ⟨l, hrest, hnodup, ?_, ?_⟩
        . intro j
          rw [not_or]
          by_cases hj : j = i
          . subst hj
            simp [hnew]
          have hother := hmem j
          rw [mem_cons] at hother
          simpa [hj] using hother
        . rw [length_cons] at hlength
          show l.length = (chunk.info.numArenasFreeCommitted - 1).toNat
          omega
      . exact h.decommittedArenas
      . show (chunk.info.numArenasFree - 1).toNat
          = (chunk.info.numArenasFreeCommitted - 1).toNat + chunk.decommitted.card
        rw [hcount, toNat_sub_one (by omega)]
        omega
    . intro j hjlt hjcommitted hj
      exact h.notAllocated j hjlt hjcommitted (fun htaken => hj (Or.inr htaken))
    . exact h.offset

theorem findDecommittedArenaOffset_sound (hoffset : chunk.info.lastDecommittedArenaOffset.toNat ≤ ArenasPerChunk size)
    (h : chunk.findDecommittedArenaOffset = some i)
    : i < ArenasPerChunk size ∧ chunk.decommittedArenas.get i = true := by
  unfold findDecommittedArenaOffset at h
  dsimp only at h
  split at h
  next j hfind =>
    cases h
    have hmem := mem_of_find?_eq_some hfind
    rw [mem_range'_1] at hmem
    have hget := List.find?_some hfind
    exact ⟨by omega, hget⟩
  next =>
    have hmem := mem_of_find?_eq_some h
    rw [mem_range] at hmem
    have hget := List.find?_some h
    exact ⟨by omega, hget⟩

theorem findDecommittedArenaOffset_complete
    (h : chunk.findDecommittedArenaOffset = none) (hlt : i < ArenasPerChunk size)
    : chunk.decommittedArenas.get i = false := by
  unfold findDecommittedArenaOffset at h
  dsimp only at h
  split at h
  next => cases h
  next hafter =>
    rw [List.find?_eq_none] at h hafter
    rw [← Bool.not_eq_true]
    by_cases hlast : i < chunk.info.lastDecommittedArenaOffset.toNat
    . exact h i (mem_range.mpr hlast)
    apply hafter i
    rw [mem_range'_1]
    omega

variable {chunk' : Chunk size}

theorem decommitted_MarkPagesInUseSoft (hlt : i < ArenasPerChunk size) (hcommitted : chunk.committed i = false)
    (h : chunk'.committed = Function.update chunk.committed i true)
    : chunk'.decommitted.card + 1 = chunk.decommitted.card := by
  have herase : chunk'.decommitted = chunk.decommitted.erase i := by
    ext j
    rw [Finset.mem_erase, mem_decommitted, mem_decommitted, h]
    by_cases hj : j = i
    . subst hj
      simp
    . simp [hj]
  rw [herase]
  exact Finset.card_erase_add_one ((mem_decommitted chunk i).mpr ⟨hlt, hcommitted⟩)

theorem decommitted_MarkPagesUnusedSoft (hlt : i < ArenasPerChunk size) (hcommitted : chunk.committed i = true)
    (h : chunk'.committed = Function.update chunk.committed i false)
    : chunk'.decommitted.card = chunk.decommitted.card + 1 := by
  have hinsert : chunk'.decommitted = insert i chunk.decommitted := by
    ext j
    rw [Finset.mem_insert, mem_decommitted, mem_decommitted, h]
    by_cases hj : j = i
    . subst hj
      simp [hlt]
    . simp [hj]
  rw [hinsert]
  apply Finset.card_insert_of_notMem
  rw [mem_decommitted, hcommitted]
  simp

theorem Core.fetchNextDecommittedArena (h : chunk.Core taken)
    (hzero : chunk.info.numArenasFreeCommitted.toNat = 0) (hpositive : 0 < chunk.info.numArenasFree.toNat)
    : ∃ i chunk', chunk.fetchNextDecommittedArena = some (i, chunk') ∧ i < ArenasPerChunk size ∧ ¬ taken i
        ∧ chunk'.info.numArenasFree = chunk.info.numArenasFree - 1
        ∧ chunk'.info.numArenasFreeCommitted = chunk.info.numArenasFreeCommitted
        ∧ (∀ j, j ≠ i → chunk'.arenas j = chunk.arenas j)
        ∧ chunk'.Core (fun j => j = i ∨ taken j) := by
  have hsum := h.numArenasFree
  have hbound := ArenasPerChunk_le size
  have hoffset := h.offset
  cases hfind : chunk.findDecommittedArenaOffset with
  | none =>
    obtain ⟨i, hi⟩ := Finset.card_pos.mp (show 0 < chunk.decommitted.card by omega)
    rw [mem_decommitted] at hi
    have hget := findDecommittedArenaOffset_complete hfind hi.1
    rw [(h.decommittedArenas i hi.1).mpr hi.2] at hget
    cases hget
  | some i =>
    obtain ⟨hlt, hget⟩ := findDecommittedArenaOffset_sound hoffset hfind
    have hcommitted := (h.decommittedArenas i hlt).mp hget
    have hnot : ¬ taken i := by
      intro htaken
      rw [(h.committed i htaken).2] at hcommitted
      cases hcommitted
    obtain ⟨l, hlist, hnodup, hmem, hlength⟩ := h.freeList
    unfold Chunk.fetchNextDecommittedArena
    rw [hfind]
    refine ⟨i, _, rfl, hlt, hnot, rfl, rfl, ?_, ?_⟩
    . intro j hj
      exact Function.update_of_ne hj _ _
    constructor
    . constructor
      . intro j hj
        show j < ArenasPerChunk size ∧ Function.update chunk.committed i true j = true
        by_cases heq : j = i
        . subst heq
          exact ⟨hlt, Function.update_self _ _ _⟩
        . rw [Function.update_of_ne heq]
          exact h.committed j (hj.resolve_left heq)
      . refine ⟨l, ?_, hnodup, ?_, hlength⟩
        . apply hlist.congr
          intro j hj
          have hne : j ≠ i := by
            rintro rfl
            rw [((hmem j).mp hj).2.1] at hcommitted
            cases hcommitted
          show (Function.update chunk.arenas i _ j).next = _
          rw [Function.update_of_ne hne]
        . intro j
          show j ∈ l ↔ j < ArenasPerChunk size ∧ Function.update chunk.committed i true j = true ∧ _
          rw [hmem]
          by_cases hj : j = i
          . subst hj
            simp [hcommitted]
          . simp [hj]
      . intro j hj
        show (chunk.decommittedArenas.unset i).get j = true ↔ Function.update chunk.committed i true j = false
        rw [BitArray.get_unset _ hlt]
        by_cases heq : j = i
        . subst heq
          simp
        . rw [Function.update_of_ne heq, decide_eq_false heq, Bool.not_false, Bool.true_and]
          exact h.decommittedArenas j hj
      . show (chunk.info.numArenasFree - 1).toNat = chunk.info.numArenasFreeCommitted.toNat + _
        rw [toNat_sub_one hpositive]
        apply Nat.sub_eq_of_eq_add
        rw [hsum, Nat.add_assoc]
        congr 1
        exact (decommitted_MarkPagesInUseSoft hlt hcommitted rfl).symm
    . intro j hjlt hjcommitted hj
      have hne : j ≠ i := fun heq => hj (Or.inl heq)
      show (Function.update chunk.arenas i _ j).allocated = false
      have hjc : Function.update chunk.committed i true j = true := hjcommitted
      rw [Function.update_of_ne hne] at hjc ⊢
      exact h.notAllocated j hjlt hjc (fun htaken => hj (Or.inr htaken))
    . show (UInt32.ofNat i + 1).toNat ≤ ArenasPerChunk size
      have hi : (UInt32.ofNat i).toNat = i := UInt32.toNat_ofNat_of_lt' (by
        show i < 2 ^ 32
        omega)
      rw [toNat_add_one (by omega), hi]
      omega

theorem exists_contents (h : chunk.MarkPagesUnusedSoft i outcome = some chunk')
    : ∃ contents, chunk' = { chunk.setArena i contents with committed := Function.update chunk.committed i false } := by
  cases outcome with
  | none => cases h
  | some contents =>
    cases h
    exact ⟨contents, rfl⟩

theorem Core.decommit (h : chunk.Core taken) (hi : taken i) (hmark : chunk.MarkPagesUnusedSoft i outcome = some chunk')
    : (chunk'.addArenaToDecommittedList i).Core (fun j => taken j ∧ j ≠ i) := by
  obtain ⟨contents, rfl⟩ := exists_contents hmark
  obtain ⟨hlt, hcommitted⟩ := h.committed i hi
  obtain ⟨l, hlist, hnodup, hmem, hlength⟩ := h.freeList
  have hfree := h.numArenasFree_lt hi
  have hbound := ArenasPerChunk_le size
  have hsum := h.numArenasFree
  constructor
  . constructor
    . rintro j ⟨hj, hne⟩
      show j < ArenasPerChunk size ∧ Function.update chunk.committed i false j = true
      rw [Function.update_of_ne hne]
      exact h.committed j hj
    . refine ⟨l, ?_, hnodup, ?_, hlength⟩
      . apply hlist.congr
        intro j hj
        have hne : j ≠ i := by
          rintro rfl
          exact ((hmem j).mp hj).2.2 hi
        show (Function.update chunk.arenas i contents j).next = _
        rw [Function.update_of_ne hne]
      intro j
      show j ∈ l ↔ j < ArenasPerChunk size ∧ Function.update chunk.committed i false j = true ∧ _
      rw [hmem]
      by_cases hj : j = i
      . subst hj
        simp [hi]
      . simp [hj]
    . intro j hj
      show (chunk.decommittedArenas.set i).get j = true ↔ Function.update chunk.committed i false j = false
      rw [BitArray.get_set _ hlt]
      by_cases heq : j = i
      . subst heq
        simp
      . rw [Function.update_of_ne heq, decide_eq_false heq, Bool.false_or]
        exact h.decommittedArenas j hj
    . show (chunk.info.numArenasFree + 1).toNat = chunk.info.numArenasFreeCommitted.toNat + _
      rw [toNat_add_one (by omega), hsum, Nat.add_assoc]
      congr 1
      exact (decommitted_MarkPagesUnusedSoft hlt hcommitted rfl).symm
  . intro j hjlt hjcommitted hj
    have hjc : Function.update chunk.committed i false j = true := hjcommitted
    have hne : j ≠ i := by
      rintro rfl
      rw [Function.update_self] at hjc
      cases hjc
    show (Function.update chunk.arenas i contents j).allocated = false
    rw [Function.update_of_ne hne] at hjc ⊢
    exact h.notAllocated j hjlt hjc (fun htaken => hj ⟨htaken, hne⟩)
  . exact h.offset

theorem core_decommitAllArenas (chunk : Chunk size) (contents : Nat → Arena)
    : (chunk.decommitAllArenas contents).Core (fun _ => False) := by
  constructor
  . constructor
    . intro i hi
      cases hi
    . exact ⟨[], rfl, nodup_nil, by simp [decommitAllArenas], rfl⟩
    . intro i hi
      have hget := get_clear size i hi
      simp [decommitAllArenas, hget]
    . show (UInt32.ofNat (ArenasPerChunk size)).toNat = 0 + _
      rw [toNat_ArenasPerChunk, Nat.zero_add]
      simp [decommitted, decommitAllArenas]
  . intro i _ hcommitted
    cases hcommitted
  . exact Nat.zero_le _

def FreeInPlace (chunk : Chunk size) (i : Nat) : Prop :=
  chunk.decommittedArenas.get i = false ∧ (chunk.arenas i).allocated = false

variable {outcome : Nat → Option Arena}

theorem decommitArenaInPlace_of_not
    (h : chunk.FreeInPlace i → outcome i = none) : chunk.decommitArenaInPlace outcome i = chunk := by
  unfold decommitArenaInPlace
  split
  next => rfl
  next hfree =>
    rw [Bool.or_eq_true, not_or, Bool.not_eq_true, Bool.not_eq_true] at hfree
    rw [h hfree]
    rfl

theorem decommitFreeArenas_of_not (h : ∀ i, i < ArenasPerChunk size → chunk.FreeInPlace i → outcome i = none)
    : chunk.decommitFreeArenasWithoutUnlocking outcome = chunk := by
  have hfold : ∀ l : List Nat, (∀ i ∈ l, i < ArenasPerChunk size) →
      l.foldl (decommitArenaInPlace outcome) chunk = chunk := by
    intro l
    induction l with
    | nil =>
      intro _
      rfl
    | cons i l ih =>
      intro hl
      rw [foldl_cons, decommitArenaInPlace_of_not (h i (hl i mem_cons_self))]
      exact ih fun j hj => hl j (mem_cons_of_mem i hj)
  exact hfold _ fun i hi => mem_range.mp hi

theorem exists_decommitFreeArenas (outcome : Nat → Option Arena) (l : List Nat) (chunk : Chunk size)
    : ∃ k, k ≤ l.length ∧ (l.foldl (decommitArenaInPlace outcome) chunk).info.numArenasFreeCommitted
          = chunk.info.numArenasFreeCommitted - UInt32.ofNat k
        ∧ ((∃ i ∈ l, chunk.FreeInPlace i ∧ outcome i ≠ none) → 0 < k) := by
  induction l generalizing chunk with
  | nil => exact ⟨0, Nat.le_refl 0, by simp, by simp⟩
  | cons i l ih =>
    rw [foldl_cons]
    by_cases hi : chunk.FreeInPlace i ∧ outcome i ≠ none
    . obtain ⟨k, hle, heq, _⟩ := ih (chunk.decommitArenaInPlace outcome i)
      refine ⟨k + 1, by simpa using hle, ?_, fun _ => Nat.succ_pos k⟩
      obtain ⟨⟨hget, hallocated⟩, hsome⟩ := hi
      obtain ⟨contents, hcontents⟩ := Option.ne_none_iff_exists'.mp hsome
      have hcount : (chunk.decommitArenaInPlace outcome i).info.numArenasFreeCommitted
          = chunk.info.numArenasFreeCommitted - 1 := by
        unfold decommitArenaInPlace
        rw [hget, hallocated, hcontents]
        rfl
      rw [heq, hcount, UInt32.ofNat_add]
      grind
    have hsame : chunk.decommitArenaInPlace outcome i = chunk := by
      apply decommitArenaInPlace_of_not
      intro hfree
      by_contra hne
      exact hi ⟨hfree, hne⟩
    rw [hsame]
    obtain ⟨k, hle, heq, hpositive⟩ := ih chunk
    refine ⟨k, Nat.le_succ_of_le hle, heq, ?_⟩
    rintro ⟨j, hj, hfree⟩
    rcases mem_cons.mp hj with rfl | hj
    . exact absurd hfree hi
    . exact hpositive ⟨j, hj, hfree⟩

theorem count_decommitFreeArenas
    (hlt : i < ArenasPerChunk size) (hfree : chunk.FreeInPlace i) (houtcome : outcome i ≠ none)
    : (chunk.decommitFreeArenasWithoutUnlocking outcome).info.numArenasFreeCommitted
        ≠ chunk.info.numArenasFreeCommitted := by
  obtain ⟨k, hle, heq, hpositive⟩ := exists_decommitFreeArenas outcome (List.range (ArenasPerChunk size)) chunk
  have hk := hpositive ⟨i, mem_range.mpr hlt, hfree, houtcome⟩
  have hbound := ArenasPerChunk_le size
  rw [length_range] at hle
  unfold decommitFreeArenasWithoutUnlocking
  rw [heq]
  intro hsame
  have hnat := congrArg UInt32.toNat hsame
  rw [UInt32.toNat_sub, UInt32.toNat_ofNat_of_lt' (show k < 2 ^ 32 by omega)] at hnat
  have := chunk.info.numArenasFreeCommitted.toNat_lt
  omega

end Chunk

end Gc

end SpiderMonkey
