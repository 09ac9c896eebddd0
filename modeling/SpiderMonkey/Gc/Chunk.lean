import Mathlib.Data.Fintype.Basic
import SpiderMonkey.Gc.Lemmas.Chunk
import SpiderMonkey.Lib.Run

/-!
This module contains when the accounts of the arenas of all chunks stay exact: in exactly the runs without a decommit
in place of a free arena and without a release of the last arena of a chunk. How the single calls keep the accounts
comes first.
-/

namespace SpiderMonkey.Gc

open Function Finset

namespace GCRuntime

variable {ι : Type} {size : ChunkSize}

structure Within (c : ι) (i : Nat) (gc gc' : GCRuntime ι size) : Prop where
  chunks : ∀ d, d ≠ c → gc'.chunks d = gc.chunks d
  arenas : ∀ j, j ≠ i → (gc'.chunks c).arenas j = (gc.chunks c).arenas j

variable {c : ι} {i : Nat} {gc gc' : GCRuntime ι size}

theorem Within.trans (h : Within c i gc gc') (h' : Within c i gc' gc'') : Within c i gc gc'' := by
  constructor
  . intro d hd
    rw [h'.chunks d hd, h.chunks d hd]
  . intro j hj
    rw [h'.arenas j hj, h.arenas j hj]

theorem Within.of_eq (h : gc'.chunks = gc.chunks)
    : Within c i gc gc' := by
  constructor
  . intro d _
    rw [h]
  . intro j _
    rw [h]

variable [DecidableEq ι]

variable {taken : Finset (ι × Nat)}

theorem mem_insert_of_ne (hd : d ≠ c) (i j : Nat)
    : (d, j) ∈ taken ↔ (d, j) ∈ insert (c, i) taken := by
  simp [hd]

theorem within_setChunk (gc : GCRuntime ι size) {chunk : Chunk size}
    (h : ∀ j, j ≠ i → chunk.arenas j = (gc.chunks c).arenas j) : Within c i gc (gc.setChunk c chunk) := by
  constructor
  . intro d hd
    simp [setChunk, update_of_ne hd]
  . intro j hj
    simpa [setChunk] using h j hj

theorem within_addArenaToFreeList (gc : GCRuntime ι size) (c : ι) (i : Nat)
    : Within c i gc (gc.addArenaToFreeList c i) := by
  constructor
  . intro d hd
    simp [addArenaToFreeList, setChunk, update_of_ne hd]
  . intro j hj
    simp [addArenaToFreeList, setChunk, Chunk.setArena, update_of_ne hj]

theorem numArenasFree_addArenaToFreeList (gc : GCRuntime ι size) (c : ι) (i : Nat)
    : ((gc.addArenaToFreeList c i).chunks c).info.numArenasFree = (gc.chunks c).info.numArenasFree + 1 := by
  simp [addArenaToFreeList, setChunk, Chunk.setArena]

theorem chunks_updateChunkListAfterAlloc (gc : GCRuntime ι size) (c : ι)
    : (gc.updateChunkListAfterAlloc c).chunks = gc.chunks
        ∧ (gc.updateChunkListAfterAlloc c).numArenasFreeCommitted = gc.numArenasFreeCommitted := by
  unfold updateChunkListAfterAlloc
  split
  next => exact ⟨rfl, rfl⟩
  next => exact ⟨rfl, rfl⟩

theorem chunks_updateChunkListAfterFree
    (h : (gc.chunks c).info.numArenasFree.toNat ≠ ArenasPerChunk size) (contents : Nat → Arena)
    : (gc.updateChunkListAfterFree c contents).chunks = gc.chunks
        ∧ (gc.updateChunkListAfterFree c contents).numArenasFreeCommitted = gc.numArenasFreeCommitted := by
  have hunused : (gc.chunks c).unused = false := by
    unfold Chunk.unused
    rw [decide_eq_false_iff_not]
    intro heq
    rw [heq, toNat_ArenasPerChunk] at h
    exact h rfl
  unfold updateChunkListAfterFree
  split
  next => exact ⟨rfl, rfl⟩
  next =>
    rw [hunused, Bool.not_false, if_pos rfl]
    exact ⟨rfl, rfl⟩

variable [Fintype ι]

def sumFreeCommitted (gc : GCRuntime ι size) : Nat :=
  ∑ c, (gc.chunks c).info.numArenasFreeCommitted.toNat

-- The accounts of all chunks and their sum, which is a number of 32 bits, when `taken` are in use.
structure Core (gc : GCRuntime ι size) (taken : Finset (ι × Nat)) : Prop where
  chunks : ∀ c, (gc.chunks c).Core fun i => (c, i) ∈ taken
  counted : gc.numArenasFreeCommitted.toNat = gc.sumFreeCommitted % 2 ^ 32

theorem sumFreeCommitted_setChunk (gc : GCRuntime ι size) (c : ι) (chunk : Chunk size)
    : (gc.setChunk c chunk).sumFreeCommitted + (gc.chunks c).info.numArenasFreeCommitted.toNat
        = gc.sumFreeCommitted + chunk.info.numArenasFreeCommitted.toNat := by
  have hupdate : ∀ d, ((gc.setChunk c chunk).chunks d).info.numArenasFreeCommitted.toNat
      = Function.update (fun d => (gc.chunks d).info.numArenasFreeCommitted.toNat) c
          chunk.info.numArenasFreeCommitted.toNat d := by
    intro d
    by_cases hd : d = c
    . subst hd
      simp [setChunk]
    . simp [setChunk, update_of_ne hd]
  unfold sumFreeCommitted
  rw [sum_congr rfl fun d _ => hupdate d, sum_update_of_mem (mem_univ c),
    sum_eq_add_sum_sdiff_singleton_of_mem (mem_univ c) fun d => (gc.chunks d).info.numArenasFreeCommitted.toNat]
  omega

theorem Core.setChunk (h : gc.Core taken)
    {chunk : Chunk size} {count : UInt32} (hchunk : chunk.Core fun i => (c, i) ∈ taken')
    (hother : ∀ d, d ≠ c → ∀ i, (d, i) ∈ taken ↔ (d, i) ∈ taken')
    (hcount : (count.toNat + (gc.chunks c).info.numArenasFreeCommitted.toNat) % 2 ^ 32
      = (gc.numArenasFreeCommitted.toNat + chunk.info.numArenasFreeCommitted.toNat) % 2 ^ 32)
    : Core { gc.setChunk c chunk with numArenasFreeCommitted := count } taken' := by
  constructor
  . intro d
    show (Function.update gc.chunks c chunk d).Core _
    by_cases hd : d = c
    . subst hd
      rw [update_self]
      exact hchunk
    . rw [update_of_ne hd]
      exact (h.chunks d).congr (hother d hd)
  . have hsum := sumFreeCommitted_setChunk gc c chunk
    have hcounted := h.counted
    have hlt := count.toNat_lt
    show count.toNat = (gc.setChunk c chunk).sumFreeCommitted % 2 ^ 32
    omega

theorem Core.fetchNextFreeArena (h : gc.Core taken) (hpositive : 0 < (gc.chunks c).info.numArenasFreeCommitted.toNat)
    : ∃ i gc', gc.fetchNextFreeArena c = some (i, gc') ∧ (c, i) ∉ taken ∧ gc'.Core (insert (c, i) taken)
        ∧ (gc'.chunks c).info.numArenasFree = (gc.chunks c).info.numArenasFree - 1
        ∧ Within c i gc gc' ∧ ((gc'.chunks c).arenas i).allocated = false := by
  obtain ⟨i, hhead, hlt, hcommitted, hnot, hcore⟩ := (h.chunks c).pop hpositive
  unfold GCRuntime.fetchNextFreeArena
  dsimp only
  rw [hhead]
  refine ⟨i, _, rfl, hnot, ?_, ?_, ?_, ?_⟩
  . apply h.setChunk
    . apply hcore.congr
      intro j
      simp
    . intro d hd j
      exact mem_insert_of_ne hd i j
    . show ((gc.numArenasFreeCommitted - 1).toNat + (gc.chunks c).info.numArenasFreeCommitted.toNat) % 2 ^ 32
        = (gc.numArenasFreeCommitted.toNat + ((gc.chunks c).info.numArenasFreeCommitted - 1).toNat) % 2 ^ 32
      rw [toNat_sub_one hpositive, UInt32.toNat_sub, UInt32.toNat_one]
      omega
  . simp [GCRuntime.setChunk]
  . constructor
    . intro d hd
      simp [GCRuntime.setChunk, update_of_ne hd]
    . intro j _
      simp [GCRuntime.setChunk]
  . simpa [GCRuntime.setChunk] using (h.chunks c).notAllocated i hlt hcommitted hnot

theorem Core.addArenaToFreeList (h : gc.Core taken)
    (hi : (c, i) ∈ taken) (hnot : ((gc.chunks c).arenas i).allocated = false)
    : (gc.addArenaToFreeList c i).Core (taken.erase (c, i)) := by
  have hle := (h.chunks c).numArenasFree_le
  have hsum := (h.chunks c).numArenasFree
  have hbound := ArenasPerChunk_le size
  unfold GCRuntime.addArenaToFreeList
  apply h.setChunk
  . apply ((h.chunks c).push hi hnot).congr
    intro j
    simp [and_comm]
  . intro d hd j
    simp [hd]
  show ((gc.numArenasFreeCommitted + 1).toNat + (gc.chunks c).info.numArenasFreeCommitted.toNat) % 2 ^ 32
    = (gc.numArenasFreeCommitted.toNat + ((gc.chunks c).info.numArenasFreeCommitted + 1).toNat) % 2 ^ 32
  rw [toNat_add_one (x := (gc.chunks c).info.numArenasFreeCommitted) (by omega), UInt32.toNat_add, UInt32.toNat_one]
  omega

theorem Core.setArena (h : gc.Core taken)
    (hi : (c, i) ∈ taken) (arena : Arena) : (gc.setChunk c ((gc.chunks c).setArena i arena)).Core taken :=
  h.setChunk ((h.chunks c).setArena hi arena) (fun _ _ _ => Iff.rfl) rfl

omit [DecidableEq ι] in
theorem Core.of_eq (h : gc.Core taken)
    (heq : gc'.chunks = gc.chunks ∧ gc'.numArenasFreeCommitted = gc.numArenasFreeCommitted) : gc'.Core taken := by
  obtain ⟨hchunks, hcount⟩ := heq
  constructor
  . rw [hchunks]
    exact h.chunks
  unfold sumFreeCommitted
  rw [hchunks, hcount]
  exact h.counted

theorem Core.fetchArena (h : gc.Core taken) (havailable : (gc.chunks c).hasAvailableArenas = true)
    : ∃ i gc', gc.fetchArena c = some (i, gc') ∧ (c, i) ∉ taken ∧ gc'.Core (insert (c, i) taken)
        ∧ (gc'.chunks c).info.numArenasFree = (gc.chunks c).info.numArenasFree - 1 ∧ Within c i gc gc' := by
  have hfree : 0 < (gc.chunks c).info.numArenasFree.toNat := by
    unfold Chunk.hasAvailableArenas at havailable
    rw [decide_eq_true_iff] at havailable
    apply Nat.pos_of_ne_zero
    intro hzero
    exact havailable (UInt32.toNat_inj.mp hzero)
  unfold GCRuntime.fetchArena
  split
  next hpositive =>
    obtain ⟨i, gc', heq, hnot, hcore, hcount, hwithin, _⟩ :=
      h.fetchNextFreeArena (show 0 < (gc.chunks c).info.numArenasFreeCommitted.toNat from hpositive)
    exact ⟨i, gc', heq, hnot, hcore, hcount, hwithin⟩
  next hzero =>
    have hnone : (gc.chunks c).info.numArenasFreeCommitted.toNat = 0 := Nat.eq_zero_of_not_pos hzero
    obtain ⟨i, chunk', heq, _, hnot, hcount, hcommitted, harenas, hcore⟩ :=
      (h.chunks c).fetchNextDecommittedArena hnone hfree
    rw [heq]
    refine ⟨i, gc.setChunk c chunk', rfl, hnot, ?_, ?_, ?_⟩
    . apply h.setChunk
      . apply hcore.congr
        intro j
        simp
      . intro d hd j
        exact mem_insert_of_ne hd i j
      . rw [hcommitted]
    . simpa [GCRuntime.setChunk] using hcount
    . constructor
      . intro d hd
        simp [GCRuntime.setChunk, update_of_ne hd]
      . intro j hj
        simpa [GCRuntime.setChunk] using harenas j hj

namespace State

structure Inv (state : State ι size) : Prop where
  core : state.gc.Core state.allocated
  allocated : ∀ c i, (c, i) ∈ state.allocated → ((state.gc.chunks c).arenas i).allocated = true
  unused : ∀ c, (state.gc.chunks c).info.numArenasFree.toNat = ArenasPerChunk size →
    (state.gc.chunks c).info.numArenasFreeCommitted.toNat = 0

theorem Inv.of_within {allocated allocated' : Finset (ι × Nat)}
    (h : Inv ⟨gc, allocated⟩) (hcore : gc'.Core allocated') (hwithin : Within c i gc gc')
    (hold : ∀ d j, (d, j) ≠ (c, i) → (d, j) ∈ allocated' → (d, j) ∈ allocated)
    (hnew : (c, i) ∈ allocated' → ((gc'.chunks c).arenas i).allocated = true)
    (hfree : (gc'.chunks c).info.numArenasFree.toNat ≠ ArenasPerChunk size) : Inv ⟨gc', allocated'⟩ := by
  constructor
  . exact hcore
  . intro d j hj
    show ((gc'.chunks d).arenas j).allocated = true
    by_cases heq : (d, j) = (c, i)
    . cases heq
      exact hnew hj
    have hbefore := h.allocated d j (hold d j heq hj)
    by_cases hd : d = c
    . subst hd
      have hne : j ≠ i := fun hji => heq (by rw [hji])
      rw [hwithin.arenas j hne]
      exact hbefore
    . rw [hwithin.chunks d hd]
      exact hbefore
  . intro d hd
    by_cases heq : d = c
    . subst heq
      exact absurd hd hfree
    have hsame := hwithin.chunks d heq
    dsimp only at hd ⊢
    rw [hsame] at hd ⊢
    exact h.unused d hd

omit [DecidableEq ι] in
theorem inv_init (available : List ι) (contents : ι → Nat → Arena)
    : (State.init available contents : State ι size).Inv := by
  constructor
  . constructor
    . intro c
      have hcore := Chunk.core_decommitAllArenas
        (Chunk.mk (contents c) (fun _ => false) (BitArray.clear false) ⟨none, 0, 0, 0⟩ : Chunk size) (contents c)
      apply hcore.congr
      intro i
      simp [State.init]
    . show (0 : UInt32).toNat = (∑ _c : ι, (0 : UInt32).toNat) % 2 ^ 32
      simp
  . intro c i hi
    cases hi
  . intro c _
    rfl

variable {state : State ι size}

theorem Inv.allocateArena (h : state.Inv) (hallowed : (state.gc.chunks c).hasAvailableArenas = true) (kind : Nat)
    : ∃ i gc', state.gc.allocateArena c kind = some (i, gc') ∧ (c, i) ∉ state.allocated
        ∧ Inv ⟨gc', insert (c, i) state.allocated⟩ := by
  obtain ⟨i, gc₁, heq, hnot, hcore, hfree, hwithin⟩ := h.core.fetchArena hallowed
  have hle := (h.core.chunks c).numArenasFree_le
  have hinit := hcore.setArena (mem_insert_self (c, i) state.allocated) (((gc₁.chunks c).arenas i).init kind)
  have hsame := chunks_updateChunkListAfterAlloc (gc₁.initArena c i kind) c
  unfold GCRuntime.allocateArena
  rw [heq]
  refine ⟨i, _, rfl, hnot, ?_⟩
  have hset : Within c i gc₁ (gc₁.initArena c i kind) := by
    apply within_setChunk
    intro j hj
    simp [Chunk.setArena, update_of_ne hj]
  apply h.of_within (hinit.of_eq hsame) (hwithin.trans (hset.trans (Within.of_eq hsame.1)))
  . intro d j hne hj
    exact (mem_insert.mp hj).resolve_left hne
  . intro _
    rw [hsame.1]
    simp [initArena, GCRuntime.setChunk, Chunk.setArena, Arena.init, Arena.allocated]
  have hchunk : ((gc₁.initArena c i kind).chunks c).info.numArenasFree = (gc₁.chunks c).info.numArenasFree := by
    simp [initArena, GCRuntime.setChunk, Chunk.setArena]
  rw [hsame.1, hchunk, hfree]
  have hpositive : 0 < (state.gc.chunks c).info.numArenasFree.toNat := by
    unfold Chunk.hasAvailableArenas at hallowed
    rw [decide_eq_true_iff] at hallowed
    apply Nat.pos_of_ne_zero
    intro hzero
    exact hallowed (UInt32.toNat_inj.mp hzero)
  rw [toNat_sub_one hpositive]
  omega

omit [DecidableEq ι] in
theorem Inv.numArenasFree_add_one_eq_iff (h : state.Inv) (hi : (c, i) ∈ state.allocated)
    : (state.gc.chunks c).info.numArenasFree.toNat + 1 = ArenasPerChunk size
        ↔ ∀ j, (c, j) ∈ state.allocated → j = i := by
  constructor
  . intro heq j hj
    by_contra hne
    have hcard := (h.core.chunks c).card_le {i, j} (by
      intro k hk
      rw [mem_insert, mem_singleton] at hk
      rcases hk with rfl | rfl
      . exact hi
      . exact hj)
    rw [card_pair (Ne.symm hne)] at hcard
    omega
  intro honly
  have hcard := (h.core.chunks c).card_eq {i} (by
    intro k
    rw [mem_singleton]
    constructor
    . rintro rfl
      exact hi
    . exact honly k)
  rw [card_singleton] at hcard
  omega

theorem Inv.updateChunkListAfterFree {allocated allocated' : Finset (ι × Nat)}
    (h : Inv ⟨gc, allocated⟩) (hcore : gc'.Core allocated') (hwithin : Within c i gc gc')
    (hold : ∀ d j, (d, j) ∈ allocated' → (d, j) ∈ allocated) (hnew : (c, i) ∉ allocated')
    (hfree : (gc'.chunks c).info.numArenasFree.toNat ≠ ArenasPerChunk size) (contents : Nat → Arena)
    : Inv ⟨gc'.updateChunkListAfterFree c contents, allocated'⟩ := by
  have hsame := chunks_updateChunkListAfterFree hfree contents
  apply h.of_within (hcore.of_eq hsame) (hwithin.trans (Within.of_eq hsame.1))
  . intro d j _ hj
    exact hold d j hj
  . intro hmem
    exact absurd hmem hnew
  . rw [hsame.1]
    exact hfree

def releasedArena (gc : GCRuntime ι size) (c : ι) (i : Nat) : GCRuntime ι size :=
  addArenaToFreeList (gc.setChunk c ((gc.chunks c).setArena i ((gc.chunks c).arenas i).setAsNotAllocated)) c i

theorem Inv.releasedArena (h : state.Inv) (hi : (c, i) ∈ state.allocated)
    : (State.releasedArena state.gc c i).Core (state.allocated.erase (c, i))
        ∧ Within c i state.gc (State.releasedArena state.gc c i)
        ∧ ((State.releasedArena state.gc c i).chunks c).info.numArenasFree.toNat
          = (state.gc.chunks c).info.numArenasFree.toNat + 1 := by
  have hlt := (h.core.chunks c).numArenasFree_lt hi
  have hbound := ArenasPerChunk_le size
  have hset := h.core.setArena hi ((state.gc.chunks c).arenas i).setAsNotAllocated
  have hwithin : Within c i state.gc
      (state.gc.setChunk c ((state.gc.chunks c).setArena i ((state.gc.chunks c).arenas i).setAsNotAllocated)) := by
    apply within_setChunk
    intro j hj
    simp [Chunk.setArena, update_of_ne hj]
  refine ⟨?_, ?_, ?_⟩
  . apply hset.addArenaToFreeList hi
    simp [GCRuntime.setChunk, Chunk.setArena, Arena.setAsNotAllocated, Arena.allocated]
  . exact hwithin.trans (within_addArenaToFreeList _ c i)
  unfold State.releasedArena
  rw [numArenasFree_addArenaToFreeList]
  have hsame : ((state.gc.setChunk c ((state.gc.chunks c).setArena i
      ((state.gc.chunks c).arenas i).setAsNotAllocated)).chunks c).info.numArenasFree
        = (state.gc.chunks c).info.numArenasFree := by
    simp [GCRuntime.setChunk, Chunk.setArena]
  rw [hsame, toNat_add_one (by omega)]

theorem Inv.releaseArena (h : state.Inv)
    (hi : (c, i) ∈ state.allocated) (hj : (c, j) ∈ state.allocated) (hne : j ≠ i) (contents : Nat → Arena)
    : Inv ⟨state.gc.releaseArena c i contents, state.allocated.erase (c, i)⟩ := by
  obtain ⟨hcore, hwithin, hfree⟩ := h.releasedArena hi
  apply h.updateChunkListAfterFree hcore hwithin
  . intro d k hk
    exact mem_of_mem_erase hk
  . exact notMem_erase _ _
  rw [hfree]
  intro heq
  exact hne ((h.numArenasFree_add_one_eq_iff hi).mp heq j hj)

theorem Inv.decommitOneFreeArena (h : state.Inv)
    (hallowed : 0 < (state.gc.chunks c).info.numArenasFreeCommitted) (outcome : Option Arena) (contents : Nat → Arena)
    : ∃ gc', state.gc.decommitOneFreeArena c outcome contents = some gc' ∧ Inv ⟨gc', state.allocated⟩ := by
  have hpositive : 0 < (state.gc.chunks c).info.numArenasFreeCommitted.toNat := hallowed
  have hsum := (h.core.chunks c).numArenasFree
  have hle := (h.core.chunks c).numArenasFree_le
  have hbound := ArenasPerChunk_le size
  have hnotUnused : (state.gc.chunks c).info.numArenasFree.toNat ≠ ArenasPerChunk size := by
    intro heq
    have := h.unused c heq
    omega
  obtain ⟨i, gc₁, heq, hnot, hcore, hfree, hwithin, hflag⟩ := h.core.fetchNextFreeArena hpositive
  have hsame := chunks_updateChunkListAfterAlloc gc₁ c
  have hcore₂ := hcore.of_eq hsame
  have hwithin₂ := hwithin.trans (Within.of_eq (i := i) (c := c) hsame.1)
  have hmem := mem_insert_self (c, i) state.allocated
  have herase : (insert (c, i) state.allocated).erase (c, i) = state.allocated := erase_insert hnot
  have hcount : ((gc₁.chunks c).info.numArenasFree + 1).toNat = (state.gc.chunks c).info.numArenasFree.toNat := by
    rw [hfree, toNat_add_one]
    . rw [toNat_sub_one (by omega)]
      omega
    . rw [toNat_sub_one (by omega)]
      omega
  unfold GCRuntime.decommitOneFreeArena
  rw [heq]
  dsimp only
  cases hmark : ((gc₁.updateChunkListAfterAlloc c).chunks c).MarkPagesUnusedSoft i outcome with
  | none =>
    refine ⟨_, rfl, ?_⟩
    have hpushed := hcore₂.addArenaToFreeList hmem (by
      rw [hsame.1]
      exact hflag)
    rw [herase] at hpushed
    apply h.updateChunkListAfterFree hpushed (hwithin₂.trans (within_addArenaToFreeList _ c i))
    . intro d j hj
      exact hj
    . exact hnot
    . rw [numArenasFree_addArenaToFreeList, hsame.1, hcount]
      exact hnotUnused
  | some chunk' =>
    refine ⟨_, rfl, ?_⟩
    have hdecommitted := (hcore₂.chunks c).decommit hmem hmark
    obtain ⟨found, rfl⟩ := Chunk.exists_contents hmark
    apply h.updateChunkListAfterFree
    . apply hcore₂.setChunk
      . apply hdecommitted.congr
        intro j
        have hmem_erase : (c, j) ∈ (insert (c, i) state.allocated).erase (c, i) ↔ (c, j) ∈ state.allocated := by
          rw [herase]
        rw [← hmem_erase, mem_erase, and_comm]
        simp
      . intro d hd j
        rw [← mem_insert_of_ne hd i j]
      . rfl
    . apply hwithin₂.trans (within_setChunk _ _)
      intro j hj
      simp [Chunk.addArenaToDecommittedList, Chunk.setArena, update_of_ne hj]
    . intro d j hj
      exact hj
    . exact hnot
    . simp only [GCRuntime.setChunk, update_self, Chunk.addArenaToDecommittedList, Chunk.setArena]
      rw [hsame.1, hcount]
      exact hnotUnused

-- The accounts of every chunk are exact, their sum is that of the heap, and no arena in use is handed
-- out.
structure Exact (state : State ι size) : Prop where
  chunks : ∀ c, (state.gc.chunks c).Exact fun i => (c, i) ∈ state.allocated
  numArenasFreeCommitted : state.gc.numArenasFreeCommitted.toNat = state.gc.sumFreeCommitted % 2 ^ 32
  allocateArena : ∀ c kind, (state.gc.chunks c).hasAvailableArenas = true →
    ∃ i gc', state.gc.allocateArena c kind = some (i, gc') ∧ (c, i) ∉ state.allocated

theorem Inv.exact (h : state.Inv) : state.Exact := by
  constructor
  . intro c
    exact (h.core.chunks c).toExact
  . exact h.core.counted
  intro c kind hallowed
  obtain ⟨i, gc', heq, hnot, _⟩ := h.allocateArena hallowed kind
  exact ⟨i, gc', heq, hnot⟩

-- The release leaves another arena of the chunk in use, and no free arena whose memory is committed is
-- decommitted in place.
def KeepsAccounts (state : State ι size) : Call ι → Prop
  | .allocateArena _ _ => True
  | .releaseArena c i _ => ∃ j, j ≠ i ∧ (c, j) ∈ state.allocated
  | .decommitOneFreeArena _ _ _ => True
  | .decommitFreeArenasWithoutUnlocking c outcome =>
    ∀ i, i < ArenasPerChunk size → (state.gc.chunks c).committed i = true → (c, i) ∉ state.allocated →
      outcome i = none

omit [DecidableEq ι] in
theorem Inv.freeInPlace_iff (h : state.Inv) (hlt : i < ArenasPerChunk size)
    : (state.gc.chunks c).FreeInPlace i ↔ (state.gc.chunks c).committed i = true ∧ (c, i) ∉ state.allocated := by
  have hbits := (h.core.chunks c).decommittedArenas i hlt
  constructor
  . rintro ⟨hget, hflag⟩
    constructor
    . rw [hget] at hbits
      simpa using hbits
    intro hmem
    rw [h.allocated c i hmem] at hflag
    cases hflag
  . rintro ⟨hcommitted, hnot⟩
    constructor
    . rw [hcommitted] at hbits
      simpa using hbits
    . exact (h.core.chunks c).notAllocated i hlt hcommitted hnot

theorem Inv.decommitFreeArenas (h : state.Inv)
    (hkeeps : state.KeepsAccounts (.decommitFreeArenasWithoutUnlocking c outcome))
    : Inv ⟨state.gc.decommitFreeArenasWithoutUnlocking c outcome, state.allocated⟩ := by
  have hsame : (state.gc.chunks c).decommitFreeArenasWithoutUnlocking outcome = state.gc.chunks c := by
    apply Chunk.decommitFreeArenas_of_not
    intro i hlt hfree
    obtain ⟨hcommitted, hnot⟩ := (h.freeInPlace_iff hlt).mp hfree
    exact hkeeps i hlt hcommitted hnot
  have heq : state.gc.decommitFreeArenasWithoutUnlocking c outcome = state.gc := by
    unfold GCRuntime.decommitFreeArenasWithoutUnlocking GCRuntime.setChunk
    rw [hsame, update_eq_self]
  rw [heq]
  exact h

theorem Inv.step {state : State ι size} (h : state.Inv) {call : Call ι} (hallowed : state.Allowed call)
    (hkeeps : state.KeepsAccounts call) : ∃ state', state.step call = some state' ∧ state'.Inv := by
  cases call with
  | allocateArena c kind =>
    obtain ⟨i, gc', heq, _, hinv⟩ := h.allocateArena hallowed kind
    refine ⟨_, ?_, hinv⟩
    unfold State.step
    dsimp only
    rw [heq]
    rfl
  | releaseArena c i contents =>
    obtain ⟨j, hne, hj⟩ := hkeeps
    exact ⟨_, rfl, h.releaseArena hallowed hj hne contents⟩
  | decommitOneFreeArena c outcome contents =>
    obtain ⟨gc', heq, hinv⟩ := h.decommitOneFreeArena hallowed outcome contents
    refine ⟨_, ?_, hinv⟩
    unfold State.step
    dsimp only
    rw [heq]
    rfl
  | decommitFreeArenasWithoutUnlocking c outcome => exact ⟨_, rfl, h.decommitFreeArenas hkeeps⟩

theorem Inv.not_exact_releaseArena (h : state.Inv)
    (hi : (c, i) ∈ state.allocated) (honly : ∀ j, (c, j) ∈ state.allocated → j = i) (contents : Nat → Arena)
    : ¬ Exact ⟨state.gc.releaseArena c i contents, state.allocated.erase (c, i)⟩ := by
  obtain ⟨hcore, _, hfree⟩ := h.releasedArena hi
  rw [(h.numArenasFree_add_one_eq_iff hi).mpr honly] at hfree
  have hbound := ArenasPerChunk_le size
  generalize hgc : State.releasedArena state.gc c i = gc at hcore hfree
  have hcount : (gc.chunks c).info.numArenasFreeCommitted = (state.gc.chunks c).info.numArenasFreeCommitted + 1 := by
    rw [← hgc]
    simp [State.releasedArena, GCRuntime.addArenaToFreeList, GCRuntime.setChunk, Chunk.setArena]
  have hold := (h.core.chunks c).numArenasFree
  have hlt := (h.core.chunks c).numArenasFree_lt hi
  have hunused : (gc.chunks c).unused = true := by
    unfold Chunk.unused
    rw [decide_eq_true_iff, ← UInt32.toNat_inj, hfree, toNat_ArenasPerChunk]
  have hnotOne : (gc.chunks c).info.numArenasFree ≠ 1 := by
    intro hone
    rw [hone, UInt32.toNat_one] at hfree
    omega
  have hrelease : state.gc.releaseArena c i contents = gc.updateChunkListAfterFree c contents := by
    rw [← hgc]
    rfl
  rw [hrelease]
  unfold GCRuntime.updateChunkListAfterFree
  rw [if_neg hnotOne, hunused, Bool.not_true, if_neg Bool.false_ne_true]
  intro hexact
  have hafter := hexact.numArenasFreeCommitted
  have hbefore := hcore.counted
  have hsum := sumFreeCommitted_setChunk gc c ((gc.chunks c).decommitAllArenas contents)
  have hzero : ((gc.chunks c).decommitAllArenas contents).info.numArenasFreeCommitted.toNat = 0 := rfl
  have hcountNat : (gc.chunks c).info.numArenasFreeCommitted.toNat
      = (state.gc.chunks c).info.numArenasFreeCommitted.toNat + 1 := by
    rw [hcount]
    exact toNat_add_one (by omega)
  have hafter' : gc.numArenasFreeCommitted.toNat
      = (gc.setChunk c ((gc.chunks c).decommitAllArenas contents)).sumFreeCommitted % 2 ^ 32 := hafter
  omega

theorem Inv.not_exact_decommitFreeArenas (h : state.Inv)
    (hnot : ¬ state.KeepsAccounts (.decommitFreeArenasWithoutUnlocking c outcome))
    : ¬ Exact ⟨state.gc.decommitFreeArenasWithoutUnlocking c outcome, state.allocated⟩ := by
  have hfound : ∃ i, i < ArenasPerChunk size ∧ (state.gc.chunks c).FreeInPlace i ∧ outcome i ≠ none := by
    by_contra hnone
    apply hnot
    intro i hlt hcommitted hmem
    by_contra hsome
    exact hnone ⟨i, hlt, (h.freeInPlace_iff hlt).mpr ⟨hcommitted, hmem⟩, hsome⟩
  obtain ⟨i, hlt, hfree, hsome⟩ := hfound
  have hne := Chunk.count_decommitFreeArenas hlt hfree hsome
  intro hexact
  have hafter : state.gc.numArenasFreeCommitted.toNat
      = (state.gc.decommitFreeArenasWithoutUnlocking c outcome).sumFreeCommitted % 2 ^ 32 :=
    hexact.numArenasFreeCommitted
  have hbefore := h.core.counted
  have hsum := sumFreeCommitted_setChunk state.gc c ((state.gc.chunks c).decommitFreeArenasWithoutUnlocking outcome)
  have hold := (state.gc.chunks c).info.numArenasFreeCommitted.toNat_lt
  have hnew := ((state.gc.chunks c).decommitFreeArenasWithoutUnlocking outcome).info.numArenasFreeCommitted.toNat_lt
  apply hne
  rw [← UInt32.toNat_inj]
  unfold GCRuntime.decommitFreeArenasWithoutUnlocking at hafter
  omega

theorem Inv.not_exact_step (h : state.Inv) {call : Call ι}
    (hallowed : state.Allowed call) (hnot : ¬ state.KeepsAccounts call) (hstep : state.step call = some state')
    : ¬ state'.Exact := by
  cases call with
  | allocateArena c kind => exact absurd trivial hnot
  | releaseArena c i contents =>
    cases hstep
    apply h.not_exact_releaseArena hallowed
    intro j hj
    by_contra hne
    exact hnot ⟨j, hne, hj⟩
  | decommitOneFreeArena c outcome contents => exact absurd trivial hnot
  | decommitFreeArenasWithoutUnlocking c outcome =>
    cases hstep
    exact h.not_exact_decommitFreeArenas hnot

end State

theorem arenaAccounts_exact_iff {ι : Type} [DecidableEq ι] [Fintype ι] (size : ChunkSize)
    (available : List ι) (contents : ι → Nat → Arena) (calls : List (Call ι))
    (hallowed : ∀ done call (state : State ι size), done ++ [call] <+: calls →
      done.foldlM State.step (State.init available contents) = some state → state.Allowed call)
    : (∀ done, done <+: calls → ∃ state : State ι size,
          done.foldlM State.step (State.init available contents) = some state ∧ state.Exact)
        ↔ (∀ done call (state : State ι size), done ++ [call] <+: calls →
          done.foldlM State.step (State.init available contents) = some state → state.KeepsAccounts call) := by
  have hgood : ∀ state : State ι size, state.Inv → state.Exact := by
    intro state h
    exact h.exact
  have hstep : ∀ (state : State ι size) (call : Call ι), state.Inv → state.Allowed call →
      state.KeepsAccounts call → ∃ state', state.step call = some state' ∧ state'.Inv := by
    intro state call h hcall hkeeps
    exact h.step hcall hkeeps
  have hbad : ∀ (state : State ι size) (call : Call ι) (state' : State ι size), state.Inv →
      state.Allowed call → ¬ state.KeepsAccounts call → state.step call = some state' → ¬ state'.Exact := by
    intro state call state' h hcall hnot heq
    exact h.not_exact_step hcall hnot heq
  exact Run.through_good_iff hgood hstep hbad (State.inv_init available contents) hallowed

instance {ι : Type} [DecidableEq ι] {size : ChunkSize} (state : State ι size) (call : Call ι)
    : Decidable (state.Allowed call) := by
  cases call <;> unfold State.Allowed <;> infer_instance

instance {ι : Type} [DecidableEq ι] {size : ChunkSize} (state : State ι size) (call : Call ι)
    : Decidable (state.KeepsAccounts call) :=
  match call with
  | .allocateArena _ _ => .isTrue trivial
  | .releaseArena c i _ =>
    decidable_of_iff (∃ p ∈ state.allocated, p.1 = c ∧ p.2 ≠ i) (by
      constructor
      . rintro ⟨⟨_, j⟩, hj, rfl, hne⟩
        exact ⟨j, hne, hj⟩
      . rintro ⟨j, hne, hj⟩
        exact ⟨(c, j), hj, rfl, hne⟩)
  | .decommitOneFreeArena _ _ _ => .isTrue trivial
  | .decommitFreeArenasWithoutUnlocking c outcome =>
    inferInstanceAs (Decidable (∀ i, i < ArenasPerChunk size → (state.gc.chunks c).committed i = true →
      (c, i) ∉ state.allocated → outcome i = none))

def blank : Arena := ⟨none, none⟩

def decommitHead : List (Call Unit) :=
  List.replicate 62 (.allocateArena () 0) ++
    [.releaseArena () 0 fun _ => blank, .releaseArena () 1 fun _ => blank,
      .decommitFreeArenasWithoutUnlocking () fun i => if i = 1 then some ⟨some 0, none⟩ else none,
      .allocateArena () 0]

theorem arena_handed_out_twice
    : ¬ ∀ (calls : List (Call Unit)), (∀ done call (state : State Unit .small), done ++ [call] <+: calls →
          done.foldlM State.step (State.init [()] fun _ _ => blank) = some state → state.Allowed call) →
        ∀ done, done <+: calls → ∃ state : State Unit .small,
          done.foldlM State.step (State.init [()] fun _ _ => blank) = some state ∧ state.Exact := by
  intro hclaim
  have hrun : ∃ state : State Unit .small,
      decommitHead.foldlM (Run.guarded State.step State.Allowed) (State.init [()] fun _ _ => blank) = some state
        ∧ (state.gc.chunks ()).hasAvailableArenas = true
        ∧ ((), 1) ∈ state.allocated
        ∧ (state.gc.allocateArena () 0).map (fun r => r.1) = some 1 := by
    have hsome : (decommitHead.foldlM (Run.guarded State.step State.Allowed)
        (State.init [()] fun _ _ => blank : State Unit .small)).any (fun state =>
          decide ((state.gc.chunks ()).hasAvailableArenas = true ∧ ((), 1) ∈ state.allocated
            ∧ (state.gc.allocateArena () 0).map (fun r => r.1) = some 1)) = true := by
      decide +kernel
    rw [Option.any_eq_true] at hsome
    obtain ⟨state, hstate, hfacts⟩ := hsome
    exact ⟨state, hstate, of_decide_eq_true hfacts⟩
  obtain ⟨state, hrun, havailable, hallocated, htwice⟩ := hrun
  obtain ⟨hstate, hallowed⟩ := Run.allowed_of_guarded hrun
  obtain ⟨state', hstate', hexact⟩ := hclaim decommitHead hallowed decommitHead List.prefix_rfl
  rw [hstate] at hstate'
  cases hstate'
  obtain ⟨i, gc', heq, hnot⟩ := hexact.allocateArena () 0 havailable
  rw [heq, Option.map_some, Option.some_inj] at htwice
  dsimp only at htwice
  rw [htwice] at hnot
  exact hnot hallocated

theorem arenaAccounts_exact_iff_reused
    : ([Call.allocateArena () 0, .allocateArena () 0, .releaseArena () 0 fun _ => blank,
          .decommitOneFreeArena () (some blank) fun _ => blank, .allocateArena () 0].foldlM
        (Run.guarded State.step State.KeepsAccounts) (State.init [()] fun _ _ => blank : State Unit .standard)).isSome = true ∧
      ∀ done, done <+: [Call.allocateArena () 0, .allocateArena () 0, .releaseArena () 0 fun _ => blank,
          .decommitOneFreeArena () (some blank) fun _ => blank, .allocateArena () 0] →
        ∃ state : State Unit .standard,
          done.foldlM State.step (State.init [()] fun _ _ => blank) = some state ∧ state.Exact := by
  have hrun (allowed : State Unit .standard → Call Unit → Prop) [∀ s call, Decidable (allowed s call)]
      (hsome : ([Call.allocateArena () 0, .allocateArena () 0, .releaseArena () 0 fun _ => blank,
          .decommitOneFreeArena () (some blank) fun _ => blank, .allocateArena () 0].foldlM
            (Run.guarded State.step allowed) (State.init [()] fun _ _ => blank)).isSome = true) :=
    Run.allowed_of_guarded (Option.some_get hsome).symm
  refine ⟨by decide, ?_⟩
  apply (arenaAccounts_exact_iff .standard [()] (fun _ _ => blank) _ (hrun State.Allowed (by decide)).2).mpr
  exact (hrun State.KeepsAccounts (by decide)).2

end GCRuntime

end SpiderMonkey.Gc
