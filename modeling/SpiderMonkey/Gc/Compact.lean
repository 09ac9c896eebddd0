import SpiderMonkey.Lib.OptionBind
import Mathlib.Algebra.BigOperators.Group.List.Basic
import SpiderMonkey.Gc.Impl.Compact

/-!
This module contains which arenas compacting relocates, and what it leaves of the others: how many cells are used and
free in arenas, where picking stops, how relocating fills arenas, and the theorem.
-/

open List

namespace SpiderMonkey.Gc
namespace Compact

variable {α : Type} {n : Nat} {arena : Arena α} {arenas : List (Arena α)}

def freeCells (arenas : List (Arena α)) : Nat := (arenas.map (·.countFreeCells)).sum
def cellsOf (arenas : List (Arena α)) : List α := arenas.flatMap (·.usedCells)

def Uniform (n : Nat) (arenas : List (Arena α)) : Prop := ∀ arena ∈ arenas, arena.cells.length = n

theorem length_usedCells (arena : Arena α) : arena.usedCells.length + arena.countFreeCells = arena.cells.length := by
  unfold Arena.usedCells Arena.countFreeCells
  induction arena.cells with
  | nil => rfl
  | cons cell cells ih =>
    cases cell with
    | none =>
      rw [filterMap_cons_none rfl, countP_cons_of_pos rfl, length_cons]
      omega
    | some contents =>
      have hused : id (some contents) = some contents := rfl
      rw [filterMap_cons_some hused, countP_cons_of_neg (by simp), length_cons, length_cons]
      omega

theorem countUsedCells_eq (h : arena.cells.length = n) : arena.countUsedCells n = arena.usedCells.length := by
  have hlength := length_usedCells arena
  unfold Arena.countUsedCells
  omega

theorem Uniform.cons (h : Uniform n (arena :: arenas)) : arena.cells.length = n ∧ Uniform n arenas :=
  forall_mem_cons.mp h

theorem Uniform.left {others : List (Arena α)} (h : Uniform n (arenas ++ others)) : Uniform n arenas :=
  (forall_mem_append.mp h).1

theorem length_cellsOf (h : Uniform n arenas) : (cellsOf arenas).length + freeCells arenas = arenas.length * n := by
  induction arenas with
  | nil => rw [length_nil, Nat.zero_mul]; rfl
  | cons arena arenas ih =>
    obtain ⟨hlength, hall⟩ := h.cons
    have hcells := length_usedCells arena
    have hrest := ih hall
    unfold cellsOf freeCells at hrest ⊢
    rw [flatMap_cons, length_append, map_cons, sum_cons, length_cons, Nat.succ_mul]
    omega

theorem cellsOf_append (arenas others : List (Arena α)) : cellsOf (arenas ++ others) = cellsOf arenas ++ cellsOf others :=
  flatMap_append

theorem freeCells_append (arenas others : List (Arena α))
    : freeCells (arenas ++ others) = freeCells arenas + freeCells others := by
  unfold freeCells
  rw [map_append, sum_append]

theorem freeCells_cons (arena : Arena α) (arenas : List (Arena α))
    : freeCells (arena :: arenas) = arena.countFreeCells + freeCells arenas := rfl

theorem length_cellsOf_cons (arena : Arena α) (arenas : List (Arena α))
    : (cellsOf (arena :: arenas)).length = arena.usedCells.length + (cellsOf arenas).length :=
  length_append

theorem countUsed_sum (h : Uniform n arenas) : (arenas.map (·.countUsedCells n)).sum = (cellsOf arenas).length := by
  induction arenas with
  | nil => rfl
  | cons arena arenas ih =>
    obtain ⟨hlength, hall⟩ := h.cons
    rw [length_cellsOf_cons, map_cons, sum_cons, ih hall, countUsedCells_eq hlength]

def Fits (arenas : List (Arena α)) (k : Nat) : Prop := (cellsOf (arenas.drop k)).length ≤ freeCells (arenas.take k)

theorem fits_iff_of_perm {relocated kept : List (Arena α)} (h : Uniform n arenas) (hperm : (relocated ++ kept).Perm arenas)
    : (cellsOf relocated).length ≤ freeCells kept ↔ relocated.length * n ≤ freeCells arenas := by
  have hall : Uniform n (relocated ++ kept) := fun arena harena => h arena (hperm.mem_iff.mp harena)
  have hfree : freeCells arenas = freeCells relocated + freeCells kept := by
    rw [← freeCells_append]
    exact (hperm.map _).sum_eq.symm
  have hcells := length_cellsOf hall.left
  omega

theorem fits_iff (h : Uniform n arenas) (k : Nat) : Fits arenas k ↔ (arenas.length - k) * n ≤ freeCells arenas := by
  have hperm : (arenas.drop k ++ arenas.take k).Perm arenas := by
    have happend : (arenas.drop k ++ arenas.take k).Perm (arenas.take k ++ arenas.drop k) := perm_append_comm
    rwa [take_append_drop] at happend
  unfold Fits
  rw [fits_iff_of_perm h hperm, length_drop]

theorem freeCells_le (h : Uniform n arenas) : freeCells arenas ≤ arenas.length * n := by
  rw [← length_cellsOf h]
  exact Nat.le_add_left _ _

structure Keeps (arenas : List (Arena α)) (k : Nat) : Prop where
  le : k ≤ arenas.length
  fits : Fits arenas k
  longest : ∀ j, Fits arenas j → k ≤ j
  most : ∀ relocated kept : List (Arena α), (relocated ++ kept).Perm arenas
    → (cellsOf relocated).length ≤ freeCells kept → relocated.length ≤ arenas.length - k

theorem keeps_of_not_fits (h : Uniform n arenas) (hk : k ≤ arenas.length)
    (hfits : Fits arenas k) (hbefore : ∀ j < k, ¬Fits arenas j) : Keeps arenas k := by
  have hlongest : ∀ j, Fits arenas j → k ≤ j := fun j hj => Nat.not_lt.mp fun hlt => hbefore j hlt hj
  refine ⟨hk, hfits, hlongest, fun relocated kept hperm hle => ?_⟩
  have hlength : relocated.length ≤ arenas.length := by
    rw [← hperm.length_eq, length_append]
    exact Nat.le_add_right _ _
  rw [fits_iff_of_perm h hperm, ← Nat.sub_sub_self hlength, ← fits_iff h] at hle
  have hkept := hlongest _ hle
  omega

theorem Keeps.eq (hkeeps : Keeps arenas k) (hpos : 0 < n) (h : Uniform n arenas)
    : k = arenas.length - freeCells arenas / n := by
  have hfits := hkeeps.fits
  rw [fits_iff h, ← Nat.le_div_iff_mul_le hpos] at hfits
  have hle : freeCells arenas / n ≤ arenas.length := Nat.div_le_of_le_mul (Nat.mul_comm _ n ▸ freeCells_le h)
  have hlongest := hkeeps.longest (arenas.length - freeCells arenas / n)
  rw [fits_iff h, Nat.sub_sub_self hle] at hlongest
  have hk := hlongest (Nat.div_mul_le_self _ _)
  omega

theorem keeps_iff (hpos : 0 < n) (h : Uniform n arenas) : Keeps arenas k ↔ k = arenas.length - freeCells arenas / n := by
  refine ⟨fun hkeeps => hkeeps.eq hpos h, ?_⟩
  have hle : freeCells arenas / n ≤ arenas.length := Nat.div_le_of_le_mul (Nat.mul_comm _ n ▸ freeCells_le h)
  rintro rfl
  refine keeps_of_not_fits h (Nat.sub_le _ _) ?_ fun j hj => ?_
  . rw [fits_iff h, Nat.sub_sub_self hle]
    exact Nat.div_mul_le_self _ _
  . rw [fits_iff h, ← Nat.le_div_iff_mul_le hpos]
    omega

structure ArenaList.Sorted (n : Nat) (al : ArenaList α) : Prop where
  pos : 0 < n
  uniform : Uniform n al.arenas
  cursor_le : al.cursorp_ ≤ al.arenas.length
  notFull : ∀ arena ∈ al.arenasAfterCursor, arena.countFreeCells ≠ 0
  sorted : al.arenasAfterCursor.Pairwise fun a b => a.countFreeCells ≤ b.countFreeCells

section Pick

variable {al : ArenaList α}

theorem pickLoop_stops (h : Uniform n arenas) (previousFreeCells lastFreeCells arenaIndex : Nat) (asserted : Bool)
    : ∃ j ≤ arenas.length,
        (ArenaList.pickLoop n arenas previousFreeCells (cellsOf arenas).length lastFreeCells arenaIndex asserted).1
          = arenaIndex + j
      ∧ (cellsOf (arenas.drop j)).length ≤ previousFreeCells + freeCells (arenas.take j)
      ∧ ∀ i < j, previousFreeCells + freeCells (arenas.take i) < (cellsOf (arenas.drop i)).length := by
  induction arenas generalizing previousFreeCells lastFreeCells arenaIndex asserted with
  | nil => exact ⟨0, Nat.le_refl _, rfl, Nat.zero_le _, fun i hi => absurd hi (Nat.not_lt_zero i)⟩
  | cons arena arenas ih =>
    obtain ⟨hlength, hall⟩ := h.cons
    unfold ArenaList.pickLoop
    split
    next hfits => exact ⟨0, Nat.zero_le _, rfl, hfits, fun i hi => absurd hi (Nat.not_lt_zero i)⟩
    next hfits =>
      have hused : n - arena.countFreeCells = arena.usedCells.length := countUsedCells_eq hlength
      have hfollowing : (cellsOf (arena :: arenas)).length - (n - arena.countFreeCells) = (cellsOf arenas).length := by
        rw [length_cellsOf_cons, hused, Nat.add_sub_cancel_left]
      dsimp only
      rw [hfollowing]
      obtain ⟨j, hj, hindex, hstop, hbefore⟩ := ih hall (previousFreeCells + arena.countFreeCells) arena.countFreeCells
        (arenaIndex + 1) (asserted && decide (arena.countFreeCells ≥ lastFreeCells))
      refine ⟨j + 1, Nat.succ_le_succ hj, by rw [hindex, Nat.add_assoc, Nat.add_comm 1], ?_, ?_⟩
      . rw [drop_succ_cons, take_succ_cons, freeCells_cons, ← Nat.add_assoc]
        exact hstop
      intro i hi
      cases i with
      | zero => exact Nat.not_le.mp hfits
      | succ i =>
        rw [drop_succ_cons, take_succ_cons, freeCells_cons, ← Nat.add_assoc]
        exact hbefore i (Nat.lt_of_succ_lt_succ hi)

theorem pickLoop_asserted (h : arenas.Pairwise fun a b => a.countFreeCells ≤ b.countFreeCells)
    (previousFreeCells followingUsedCells lastFreeCells arenaIndex : Nat)
    (hlast : ∀ arena ∈ arenas, lastFreeCells ≤ arena.countFreeCells) (asserted : Bool)
    : (ArenaList.pickLoop n arenas previousFreeCells followingUsedCells lastFreeCells arenaIndex asserted).2
      = asserted := by
  induction arenas generalizing previousFreeCells followingUsedCells lastFreeCells arenaIndex asserted with
  | nil => rfl
  | cons arena arenas ih =>
    obtain ⟨hfirst, hrest⟩ := pairwise_cons.mp h
    unfold ArenaList.pickLoop
    split
    next => rfl
    next =>
      dsimp only
      rw [ih hrest _ _ _ _ hfirst, decide_eq_true (hlast arena mem_cons_self), Bool.and_true]

theorem ArenaList.Sorted.of_end (h : al.Sorted n) (hend : al.isCursorAtEnd = true) : al.cursorp_ = al.arenas.length := by
  have hlength := congrArg List.length (List.isEmpty_iff.mp hend)
  unfold ArenaList.arenasAfterCursor at hlength
  rw [length_drop] at hlength
  exact Nat.le_antisymm h.cursor_le (Nat.le_of_sub_eq_zero hlength)

theorem ArenaList.Sorted.after (h : al.Sorted n) : Uniform n al.arenasAfterCursor :=
  fun arena harena => h.uniform arena (mem_of_mem_drop harena)

theorem pickArenasToRelocate_arenap (h : al.Sorted n) (arenaTotalOut relocTotalOut : Nat)
    : ∃ j, (al.pickArenasToRelocate n arenaTotalOut relocTotalOut).arenap
        = (if al.isCursorAtEnd then none else some (al.cursorp_ + j))
      ∧ Keeps al.arenasAfterCursor j
      ∧ (al.pickArenasToRelocate n arenaTotalOut relocTotalOut).relocTotalOut
        = relocTotalOut + (al.arenasAfterCursor.drop j).length
      ∧ (al.pickArenasToRelocate n arenaTotalOut relocTotalOut).arenaTotalOut
        = arenaTotalOut + if al.isCursorAtEnd then 0 else al.arenas.length := by
  have hle := h.cursor_le
  unfold ArenaList.pickArenasToRelocate
  cases hend : al.isCursorAtEnd with
  | true =>
    rw [List.isEmpty_iff.mp hend]
    have hnone : Keeps ([] : List (Arena α)) 0 := (keeps_iff h.pos (List.forall_mem_nil _)).mpr (Nat.zero_sub _).symm
    exact ⟨0, rfl, hnone, rfl, rfl⟩
  | false =>
    have hlength : al.arenasAfterCursor.length = al.arenas.length - al.cursorp_ := length_drop
    obtain ⟨j, hj, hindex, hstop, hbefore⟩ := pickLoop_stops h.after 0 0 0 true
    rw [Nat.zero_add] at hstop
    rw [if_neg Bool.false_ne_true, countUsed_sum h.after]
    dsimp only
    rw [hindex, Nat.zero_add]
    refine ⟨j, rfl, keeps_of_not_fits h.after hj hstop fun i hi => ?_, ?_, ?_⟩
    . have hnot := hbefore i hi
      rw [Nat.zero_add] at hnot
      exact Nat.not_le.mpr hnot
    . rw [length_drop]
    . rw [if_neg Bool.false_ne_true, hlength, length_take, Nat.min_eq_left hle, Nat.add_sub_cancel' hle]

theorem pickArenasToRelocate_asserted (h : al.Sorted n) (arenaTotalOut relocTotalOut : Nat)
    (hused : ∀ arena ∈ al.arenas, arena.usedCells ≠ [])
    : (al.pickArenasToRelocate n arenaTotalOut relocTotalOut).asserted = true := by
  have hle := h.cursor_le
  unfold ArenaList.pickArenasToRelocate
  cases hend : al.isCursorAtEnd with
  | true => rfl
  | false =>
    have hafter : Uniform n al.arenasAfterCursor := fun arena harena => h.uniform arena (mem_of_mem_drop harena)
    have hlength : al.arenasAfterCursor.length = al.arenas.length - al.cursorp_ := length_drop
    obtain ⟨j, hj, hindex, hstop, _⟩ := pickLoop_stops hafter 0 0 0 true
    have hfirst : 0 < j := by
      apply Nat.pos_of_ne_zero
      rintro rfl
      have hempty : cellsOf al.arenasAfterCursor = [] := length_eq_zero_iff.mp (Nat.le_zero.mp hstop)
      rcases hcons : al.arenasAfterCursor with _ | ⟨arena, arenas⟩
      . unfold ArenaList.isCursorAtEnd at hend
        rw [hcons] at hend
        cases hend
      . have hmem : arena ∈ al.arenasAfterCursor := hcons ▸ mem_cons_self
        exact hused arena (mem_of_mem_drop hmem) (flatMap_eq_nil_iff.mp hempty arena hmem)
    rw [if_neg Bool.false_ne_true, countUsed_sum hafter]
    dsimp only
    rw [hindex, pickLoop_asserted h.sorted _ _ _ _ (fun _ _ => Nat.zero_le _), Nat.zero_add, Bool.true_and,
      Bool.and_eq_true, decide_eq_true_iff, decide_eq_true_iff, drop_eq_nil_iff]
    omega

end Pick

section Relocate

variable (newArena : Option (Arena α)) {al : ArenasOfKind α}

theorem allocate_spec (hfree : arena.countFreeCells ≠ 0) (contents : α)
    : ∃ arena', arena.allocate contents = some arena' ∧ arena'.countFreeCells + 1 = arena.countFreeCells
      ∧ arena'.usedCells.Perm (contents :: arena.usedCells) := by
  obtain ⟨cells⟩ := arena
  unfold Arena.countFreeCells at hfree
  unfold Arena.allocate Arena.countFreeCells Arena.usedCells
  dsimp only at hfree ⊢
  induction cells with
  | nil => exact absurd rfl hfree
  | cons cell cells ih =>
    cases cell with
    | none =>
      refine ⟨⟨some contents :: cells⟩, rfl, ?_, ?_⟩
      . rw [countP_cons_of_neg (by simp), countP_cons_of_pos rfl]
      . rw [filterMap_cons_some (show id (some contents) = some contents from rfl), filterMap_cons_none rfl]
    | some x =>
      rw [countP_cons_of_neg (by simp)] at hfree
      obtain ⟨⟨cells'⟩, hallocate, hcount, hperm⟩ := ih hfree
      obtain ⟨i, hi, hset⟩ := Option.bind_eq_some_iff.mp hallocate
      cases hset
      refine ⟨⟨some x :: cells.set i (some contents)⟩, ?_, ?_, ?_⟩
      . rw [List.findIdx?_cons, if_neg (by simp), hi]
        rfl
      . rw [countP_cons_of_neg (by simp), countP_cons_of_neg (by simp)]
        exact hcount
      . have hx : id (some x) = some x := rfl
        rw [filterMap_cons_some hx, filterMap_cons_some hx]
        exact (hperm.cons x).trans (List.Perm.swap contents x _)

def ArenasOfKind.inFreeList (al : ArenasOfKind α) : Nat :=
  match al.freeList with
  | none => 0
  | some i => (al.arenaList.arenas[i]?.map (·.countFreeCells)).getD 0

structure ArenasOfKind.Ready (al : ArenasOfKind α) : Prop where
  cursor_le : al.arenaList.cursorp_ ≤ al.arenaList.arenas.length
  freeList : ∀ i, al.freeList = some i → i < al.arenaList.cursorp_
  notFull : ∀ arena ∈ al.arenaList.arenasAfterCursor, arena.countFreeCells ≠ 0

def ArenasOfKind.available (al : ArenasOfKind α) : Nat := al.inFreeList + freeCells al.arenaList.arenasAfterCursor

structure Allocated (contents : List α) (al al' : ArenasOfKind α) : Prop where
  ready : al'.Ready
  available : al'.available + contents.length = al.available
  length : al'.arenaList.arenas.length = al.arenaList.arenas.length
  cells : (cellsOf al'.arenaList.arenas).Perm (contents ++ cellsOf al.arenaList.arenas)

theorem cellsOf_set {i : Nat} {contents : α} (hi : arenas[i]? = some arena)
    (hperm : arena'.usedCells.Perm (contents :: arena.usedCells))
    : (cellsOf (arenas.set i arena')).Perm (contents :: cellsOf arenas) := by
  induction arenas generalizing i with
  | nil => cases hi
  | cons first rest ih =>
    cases i with
    | zero =>
      cases hi
      exact hperm.append_right _
    | succ i =>
      have hrest := ih (i := i) hi
      exact (hrest.append_left first.usedCells).trans perm_middle

theorem allocateFromFreeList_spec (hready : al.Ready) (hfree : al.inFreeList ≠ 0) (contents : α)
    : ∃ al', al.allocateFromFreeList contents = some al' ∧ Allocated [contents] al al' := by
  unfold ArenasOfKind.inFreeList at hfree
  unfold ArenasOfKind.allocateFromFreeList
  cases hlist : al.freeList with
  | none =>
    rw [hlist] at hfree
    exact absurd rfl hfree
  | some i =>
    rw [hlist] at hfree
    dsimp only at hfree
    cases harena : al.arenaList.arenas[i]? with
    | none =>
      rw [harena] at hfree
      exact absurd rfl hfree
    | some arena =>
      rw [harena] at hfree
      have hi := hready.freeList i hlist
      have hlt := (List.getElem?_eq_some_iff.mp harena).1
      obtain ⟨arena', hallocate, hcount, hperm⟩ := allocate_spec hfree contents
      rw [some_bind, harena, some_bind, hallocate, some_bind]
      refine ⟨_, rfl, ?_⟩
      have hafter : (al.arenaList.arenas.set i arena').drop al.arenaList.cursorp_ = al.arenaList.arenasAfterCursor :=
        drop_set_of_lt hi
      constructor
      . constructor
        . rw [length_set]
          exact hready.cursor_le
        . intro j hj
          exact hready.freeList j (hlist.trans hj)
        . unfold ArenaList.arenasAfterCursor
          rw [hafter]
          exact hready.notFull
      . have hset : (al.arenaList.arenas.set i arena')[i]? = some arena' := List.getElem?_set_self hlt
        unfold ArenasOfKind.available ArenasOfKind.inFreeList ArenaList.arenasAfterCursor
        dsimp only
        rw [hafter, hset, hlist]
        dsimp only
        rw [harena, Option.map_some, Option.map_some, Option.getD_some, Option.getD_some]
        unfold ArenaList.arenasAfterCursor
        rw [← hcount, length_singleton]
        omega
      . exact length_set
      . exact cellsOf_set harena hperm

theorem allocateFromFreeList_none (hfull : al.inFreeList = 0) (contents : α)
    : al.allocateFromFreeList contents = none := by
  unfold ArenasOfKind.inFreeList at hfull
  unfold ArenasOfKind.allocateFromFreeList
  cases hlist : al.freeList with
  | none => rfl
  | some i =>
    rw [hlist] at hfull
    dsimp only at hfull
    rw [some_bind]
    cases harena : al.arenaList.arenas[i]? with
    | none => rfl
    | some arena =>
      rw [harena] at hfull
      have hnone : arena.cells.findIdx? Option.isNone = none := by
        rw [List.findIdx?_eq_none_iff]
        have hcount : arena.cells.countP Option.isNone = 0 := hfull
        rw [countP_eq_zero] at hcount
        exact fun cell hcell => Bool.eq_false_iff.mpr (hcount cell hcell)
      rw [some_bind, Arena.allocate, hnone]
      rfl

theorem AllocateCellInGC_spec (hready : al.Ready) (havailable : 0 < al.available) (contents : α)
    : ∃ al', al.AllocateCellInGC newArena contents = some al' ∧ Allocated [contents] al al' := by
  unfold ArenasOfKind.AllocateCellInGC
  by_cases hfree : al.inFreeList = 0
  . rw [allocateFromFreeList_none hfree]
    unfold ArenasOfKind.available at havailable
    have hafter : al.arenaList.cursorp_ < al.arenaList.arenas.length := by
      by_contra hend
      have hnil : al.arenaList.arenasAfterCursor = [] := drop_eq_nil_iff.mpr (Nat.not_lt.mp hend)
      rw [hfree, hnil] at havailable
      exact Nat.lt_irrefl 0 havailable
    have hdrop : al.arenaList.arenasAfterCursor
        = al.arenaList.arenas[al.arenaList.cursorp_] :: al.arenaList.arenas.drop (al.arenaList.cursorp_ + 1) :=
      drop_eq_getElem_cons hafter
    obtain ⟨next, hnext⟩ : ∃ next : ArenasOfKind α, next = ⟨some al.arenaList.cursorp_,
        ⟨al.arenaList.arenas, al.arenaList.cursorp_ + 1⟩⟩ := ⟨_, rfl⟩
    have hin : next.inFreeList = al.arenaList.arenas[al.arenaList.cursorp_].countFreeCells := by
      rw [hnext]
      unfold ArenasOfKind.inFreeList
      dsimp only
      rw [List.getElem?_eq_getElem hafter]
      rfl
    have hnotFull := hready.notFull
    rw [hdrop, forall_mem_cons] at hnotFull
    have hreadyNext : next.Ready := by
      rw [hnext]
      refine ⟨hafter, ?_, hnotFull.2⟩
      intro i hi
      cases hi
      exact Nat.lt_succ_self _
    have havailableNext : next.available = al.available := by
      unfold ArenasOfKind.available
      rw [hin, hfree, hdrop, freeCells_cons, Nat.zero_add, hnext]
      rfl
    obtain ⟨al', hallocate, hallocated⟩ := allocateFromFreeList_spec hreadyNext (hin ▸ hnotFull.1) contents
    refine ⟨al', ?_, hallocated.ready, hallocated.available.trans havailableNext, ?_, ?_⟩
    . unfold ArenasOfKind.refillFreeListAndAllocate ArenaList.takeNextArena
      rw [if_pos hafter]
      dsimp only
      rw [← hnext]
      exact hallocate
    . rw [hallocated.length, hnext]
    . have hcells := hallocated.cells
      rw [hnext] at hcells
      exact hcells
  . obtain ⟨al', hallocate, hallocated⟩ := allocateFromFreeList_spec hready hfree contents
    rw [hallocate]
    exact ⟨al', rfl, hallocated⟩

theorem Allocated.trans (h : Allocated xs al al') (h' : Allocated ys al' al'') : Allocated (xs ++ ys) al al'' where
  ready := h'.ready
  available := by
    have h₁ := h.available
    have h₂ := h'.available
    rw [length_append]
    omega
  length := h'.length.trans h.length
  cells := by
    have hcells := h'.cells.trans (h.cells.append_left ys)
    rw [← append_assoc] at hcells
    exact hcells.trans (perm_append_comm.append_right _)

theorem RelocateArena_spec (hready : al.Ready) (havailable : arena.usedCells.length ≤ al.available)
    : ∃ al', al.RelocateArena newArena arena = some al' ∧ Allocated arena.usedCells al al' := by
  unfold ArenasOfKind.RelocateArena
  generalize arena.usedCells = contents at havailable ⊢
  induction contents generalizing al with
  | nil => exact ⟨al, rfl, hready, rfl, rfl, List.Perm.refl _⟩
  | cons x contents ih =>
    rw [length_cons] at havailable
    obtain ⟨al', hallocate, hallocated⟩ := AllocateCellInGC_spec newArena hready (by omega) x
    have hleft := hallocated.available
    rw [length_singleton] at hleft
    obtain ⟨al'', hrun, hrest⟩ := ih hallocated.ready (by omega)
    refine ⟨al'', ?_, hallocated.trans hrest⟩
    rw [foldlM_cons, hallocate]
    exact hrun

theorem relocateArenas_spec (relocated : List (Arena α)) (hready : al.Ready)
    (havailable : (cellsOf toRelocate).length ≤ al.available)
    : ∃ al', al.relocateArenas newArena toRelocate relocated = some (toRelocate.reverse ++ relocated, al')
      ∧ Allocated (cellsOf toRelocate) al al' := by
  induction toRelocate generalizing al relocated with
  | nil => exact ⟨al, rfl, hready, rfl, rfl, List.Perm.refl _⟩
  | cons arena toRelocate ih =>
    rw [length_cellsOf_cons] at havailable
    have hfirst : arena.usedCells.length ≤ al.available := by omega
    obtain ⟨al', hallocate, hallocated⟩ := RelocateArena_spec newArena hready hfirst
    have hleft := hallocated.available
    obtain ⟨al'', hrun, hrest⟩ := ih (arena :: relocated) hallocated.ready (by omega)
    refine ⟨al'', ?_, hallocated.trans hrest⟩
    unfold ArenasOfKind.relocateArenas
    rw [hallocate, some_bind, hrun, reverse_cons, append_assoc]
    rfl

end Relocate

variable {α : Type} {n : Nat}

-- As many arenas are left as have been kept. They hold all cells, and there is less than an arena of free ones after the
-- cursor.
structure Compacted (n : Nat) (al : ArenasOfKind α) (k : Nat) (al' : ArenasOfKind α) : Prop where
  length : al'.arenaList.arenas.length = k
  cells : (cellsOf al'.arenaList.arenas).Perm (cellsOf al.arenaList.arenas)
  free : freeCells al'.arenaList.arenasAfterCursor < n

theorem ArenaList.arenasAfterCursor_drop (al : ArenaList α) (j : Nat)
    : al.arenasAfterCursor.drop j = al.arenas.drop (al.cursorp_ + j) := drop_drop

theorem relocatePicked_spec (newArena : Option (Arena α)) (relocated : List (Arena α))
    (h : al.arenaList.Sorted n) (hfreeList : al.freeList = none) (hkeeps : Keeps al.arenaList.arenasAfterCursor j)
    : ∃ al', al.relocatePicked newArena (if al.arenaList.isCursorAtEnd then none else some (al.arenaList.cursorp_ + j))
        relocated = some ((al.arenaList.arenasAfterCursor.drop j).reverse ++ relocated, al')
      ∧ Compacted n al (al.arenaList.cursorp_ + j) al' := by
  have hpos := h.pos
  have hj := hkeeps.le
  have hcursor := h.cursor_le
  have hlength : al.arenaList.arenasAfterCursor.length = al.arenaList.arenas.length - al.arenaList.cursorp_ :=
    length_drop
  cases hend : al.arenaList.isCursorAtEnd with
  | true =>
    have hnil := List.isEmpty_iff.mp hend
    rw [hnil, length_nil] at hj hlength
    refine ⟨al, ?_, by omega, List.Perm.refl _, ?_⟩
    . rw [hnil, drop_nil]
      rfl
    . rw [hnil]
      exact hpos
  | false =>
    have hk : al.arenaList.cursorp_ + j ≤ al.arenaList.arenas.length := by omega
    obtain ⟨kept, hkept⟩ : ∃ kept : ArenasOfKind α, kept = ⟨al.freeList, ⟨al.arenaList.arenas.take
      (al.arenaList.cursorp_ + j), al.arenaList.cursorp_⟩⟩ := ⟨_, rfl⟩
    have hafter : kept.arenaList.arenasAfterCursor = al.arenaList.arenasAfterCursor.take j := by
      rw [hkept]
      exact drop_take.trans (congrArg (List.take · _) (Nat.add_sub_cancel_left _ _))
    have hready : kept.Ready := by
      refine ⟨?_, ?_, ?_⟩
      . rw [hkept]
        exact (length_take_of_le hk).symm ▸ Nat.le_add_right _ _
      . intro i hi
        rw [hkept] at hi
        cases hfreeList.symm.trans hi
      . rw [hafter]
        exact fun arena harena => h.notFull arena (mem_of_mem_take harena)
    have havailable : kept.available = freeCells (al.arenaList.arenasAfterCursor.take j) := by
      unfold ArenasOfKind.available ArenasOfKind.inFreeList
      rw [hafter, hkept]
      dsimp only
      rw [hfreeList]
      exact Nat.zero_add _
    obtain ⟨al', hrun, hallocated⟩ :=
      relocateArenas_spec newArena relocated hready (Nat.le_trans hkeeps.fits (Nat.le_of_eq havailable.symm))
    refine ⟨al', ?_, ?_, ?_, ?_⟩
    . unfold ArenasOfKind.relocatePicked ArenaList.removeRemainingArenas
      rw [if_neg Bool.false_ne_true]
      dsimp only
      rw [hkept, ArenaList.arenasAfterCursor_drop] at hrun
      rw [ArenaList.arenasAfterCursor_drop]
      exact hrun
    . rw [hallocated.length, hkept]
      exact length_take_of_le hk
    . have hcells := hallocated.cells
      rw [hkept, ArenaList.arenasAfterCursor_drop] at hcells
      apply hcells.trans
      conv_rhs => rw [← take_append_drop (al.arenaList.cursorp_ + j) al.arenaList.arenas, cellsOf_append]
      exact perm_append_comm
    -- One more arena would not have fitted.
    have hleft := hallocated.available
    rw [havailable] at hleft
    unfold ArenasOfKind.available at hleft
    have huniform : Uniform n (al.arenaList.arenasAfterCursor.drop j) := fun arena harena =>
      h.after arena (mem_of_mem_drop harena)
    have htail := length_cellsOf huniform
    have hsplit : freeCells al.arenaList.arenasAfterCursor = freeCells (al.arenaList.arenasAfterCursor.take j)
        + freeCells (al.arenaList.arenasAfterCursor.drop j) := by
      rw [← freeCells_append, take_append_drop]
    have hmod := Nat.mod_lt (freeCells al.arenaList.arenasAfterCursor) hpos
    have hdiv := Nat.div_add_mod' (freeCells al.arenaList.arenasAfterCursor) n
    have hle : freeCells al.arenaList.arenasAfterCursor / n ≤ al.arenaList.arenasAfterCursor.length :=
      Nat.div_le_of_le_mul (Nat.mul_comm _ n ▸ freeCells_le h.after)
    rw [length_drop, hkeeps.eq hpos h.after, Nat.sub_sub_self hle] at htail
    rw [hkeeps.eq hpos h.after] at hleft hsplit
    omega

theorem picked_spec {al : ArenaList α} (h : al.Sorted n) (arenaTotalOut relocTotalOut : Nat)
    : ∃ j, Keeps al.arenasAfterCursor j
      ∧ (al.pickArenasToRelocate n arenaTotalOut relocTotalOut).arenap.getD al.arenas.length = al.cursorp_ + j
      ∧ (al.pickArenasToRelocate n arenaTotalOut relocTotalOut).relocTotalOut
        = relocTotalOut + (al.arenasAfterCursor.drop j).length
      ∧ (al.pickArenasToRelocate n arenaTotalOut relocTotalOut).arenaTotalOut
        = arenaTotalOut + (if al.isCursorAtEnd then 0 else al.arenas.length)
      ∧ ∀ newArena relocated, ∃ al', (ArenasOfKind.mk none al).relocatePicked newArena
          (al.pickArenasToRelocate n arenaTotalOut relocTotalOut).arenap relocated
          = some ((al.arenasAfterCursor.drop j).reverse ++ relocated, al')
        ∧ Compacted n ⟨none, al⟩ (al.cursorp_ + j) al' := by
  obtain ⟨j, harenap, hkeeps, hreloc, htotal⟩ := pickArenasToRelocate_arenap h arenaTotalOut relocTotalOut
  refine ⟨j, hkeeps, ?_, hreloc, htotal, fun newArena relocated => ?_⟩
  . rw [harenap]
    cases hend : al.isCursorAtEnd with
    | true =>
      have hj := hkeeps.le
      rw [List.isEmpty_iff.mp hend, length_nil] at hj
      rw [Nat.le_zero.mp hj, Nat.add_zero, h.of_end hend]
      rfl
    | false => rfl
  . rw [harenap]
    exact relocatePicked_spec newArena relocated h rfl hkeeps

-- The longest tail that fits is picked and reported, and relocated into what is kept, even if there are no new arenas.
def PicksExactly (n : Nat) (al : ArenaList α) : Prop :=
  ∀ arenaTotalOut relocTotalOut, ∃ picked k, al.pickArenasToRelocate n arenaTotalOut relocTotalOut = picked
    ∧ picked.arenap.getD al.arenas.length = k ∧ Keeps al.arenas k
    ∧ picked.arenaTotalOut = arenaTotalOut + al.arenas.length
    ∧ picked.relocTotalOut = relocTotalOut + (al.arenas.drop k).length
    ∧ ((∀ arena ∈ al.arenas, arena.usedCells ≠ []) → picked.asserted = true)
    ∧ ∀ newArena relocated, ∃ al', (ArenasOfKind.mk none al).relocatePicked newArena picked.arenap relocated
        = some ((al.arenas.drop k).reverse ++ relocated, al') ∧ Compacted n ⟨none, al⟩ k al'

theorem keeps_add_iff {al : ArenaList α} (h : al.Sorted n) (hj : Keeps al.arenasAfterCursor j)
    : Keeps al.arenas (al.cursorp_ + j) ↔ freeCells al.arenas / n = freeCells al.arenasAfterCursor / n := by
  have hle : freeCells al.arenas / n ≤ al.arenas.length :=
    Nat.div_le_of_le_mul (Nat.mul_comm _ n ▸ freeCells_le h.uniform)
  have hafter : freeCells al.arenasAfterCursor / n ≤ al.arenasAfterCursor.length :=
    Nat.div_le_of_le_mul (Nat.mul_comm _ n ▸ freeCells_le h.after)
  have hlength : al.arenasAfterCursor.length = al.arenas.length - al.cursorp_ := length_drop
  have hcursor := h.cursor_le
  rw [keeps_iff h.pos h.uniform, hj.eq h.pos h.after]
  omega

theorem pickArenasToRelocate_exact_iff {al : ArenaList α} (h : al.Sorted n)
    : PicksExactly n al ↔ (al.isCursorAtEnd = false ∨ al.arenas = [])
      ∧ freeCells al.arenas / n = freeCells al.arenasAfterCursor / n := by
  constructor
  . intro hexact
    obtain ⟨picked, k, rfl, harenap, hkeeps, htotal, _⟩ := hexact 0 0
    obtain ⟨j, hj, harenap', _, htotal', _⟩ := picked_spec h 0 0
    rw [harenap'] at harenap
    refine ⟨?_, (keeps_add_iff h hj).mp (harenap ▸ hkeeps)⟩
    rw [htotal'] at htotal
    cases hend : al.isCursorAtEnd with
    | true =>
      rw [hend, if_pos rfl] at htotal
      exact .inr (length_eq_zero_iff.mp (by omega))
    | false => exact .inl rfl
  . intro hcondition arenaTotalOut relocTotalOut
    obtain ⟨hcounted, hfree⟩ := hcondition
    obtain ⟨j, hj, harenap, hreloc, htotal, hrelocates⟩ := picked_spec h arenaTotalOut relocTotalOut
    rw [ArenaList.arenasAfterCursor_drop] at hreloc hrelocates
    refine ⟨_, al.cursorp_ + j, rfl, harenap, (keeps_add_iff h hj).mpr hfree, htotal.trans ?_, hreloc,
      pickArenasToRelocate_asserted h arenaTotalOut relocTotalOut, hrelocates⟩
    rcases hcounted with hnot | hempty
    . rw [hnot, if_neg Bool.false_ne_true]
    . rw [hempty, length_nil, ite_self]

def threeArenas : ArenaList Nat where
  arenas := [⟨[some 1, some 2, some 3, some 4]⟩, ⟨[none, some 5, none, some 6]⟩, ⟨[some 7, none, none, none]⟩]
  cursorp_ := 1

theorem sorted_threeArenas : threeArenas.Sorted 4 := by
  refine ⟨by decide, ?_, by decide, by decide, by decide⟩
  unfold Uniform threeArenas
  decide

theorem pickArenasToRelocate_exact_iff_of_three
    : PicksExactly 4 threeArenas ↔ (threeArenas.isCursorAtEnd = false ∨ threeArenas.arenas = [])
      ∧ freeCells threeArenas.arenas / 4 = freeCells threeArenas.arenasAfterCursor / 4 :=
  pickArenasToRelocate_exact_iff sorted_threeArenas

def fullArenas : ArenaList Nat where
  arenas := [⟨List.replicate 25 (some 0)⟩, ⟨List.replicate 25 (some 0)⟩]
  cursorp_ := 2

theorem not_picksExactly_of_full : ¬PicksExactly 25 fullArenas := by
  intro hexact
  obtain ⟨picked, _, rfl, _, _, htotal, _⟩ := hexact 0 0
  exact absurd htotal (by decide)

section Kinds

variable (newArena : Option (Arena α))

def ArenaList.IsLongestTail (al : ArenaList α) (tail : List (Arena α)) : Prop :=
  ∃ j, Keeps al.arenasAfterCursor j ∧ tail = al.arenasAfterCursor.drop j

def KindCompacted (kind kind' : Kind α) : Prop :=
  kind'.thingsPerArena = kind.thingsPerArena
    ∧ ∃ j, Keeps kind.arenas.arenaList.arenasAfterCursor j
      ∧ Compacted kind.thingsPerArena kind.arenas (kind.arenas.arenaList.cursorp_ + j) kind'.arenas

-- A kind whose cursor is at the end is not counted.
def countedArenas (kinds : List (Kind α)) : Nat :=
  (kinds.map fun kind => if kind.arenas.arenaList.isCursorAtEnd then 0 else kind.arenas.arenaList.arenas.length).sum

theorem relocateKinds_spec {kinds : List (Kind α)}
    (h : ∀ kind ∈ kinds, kind.arenas.arenaList.Sorted kind.thingsPerArena ∧ kind.arenas.freeList = none)
    (arenaCount relocCount : Nat)
    : ∃ tails, List.Forall₂ (fun kind tail => kind.arenas.arenaList.IsLongestTail tail) kinds tails
      ∧ (ArenaLists.pickArenasToRelocate kinds arenaCount relocCount).2
        = (arenaCount + countedArenas kinds, relocCount + tails.flatten.length)
      ∧ ∀ relocated, ∃ kinds', ArenaLists.relocateKinds (fun kind => kind.arenas.relocatePicked newArena)
          (ArenaLists.pickArenasToRelocate kinds arenaCount relocCount).1 relocated
          = some (tails.flatten.reverse ++ relocated, kinds')
        ∧ List.Forall₂ KindCompacted kinds kinds' := by
  induction kinds generalizing arenaCount relocCount with
  | nil => exact ⟨[], .nil, rfl, fun relocated => ⟨[], rfl, .nil⟩⟩
  | cons kind kinds ih =>
    obtain ⟨⟨hsorted, hfreeList⟩, hrest⟩ := forall_mem_cons.mp h
    obtain ⟨thingsPerArena, ⟨freeList, arenaList⟩⟩ := kind
    dsimp only at hsorted hfreeList
    subst hfreeList
    obtain ⟨j, hj, _, hreloc, htotal, hrelocates⟩ := picked_spec hsorted arenaCount relocCount
    unfold ArenaLists.pickArenasToRelocate
    dsimp only
    obtain ⟨tails, htails, hcounts, hruns⟩ := ih hrest
      (arenaList.pickArenasToRelocate thingsPerArena arenaCount relocCount).arenaTotalOut
      (arenaList.pickArenasToRelocate thingsPerArena arenaCount relocCount).relocTotalOut
    refine ⟨arenaList.arenasAfterCursor.drop j :: tails, .cons ⟨j, hj, rfl⟩ htails, ?_, fun relocated => ?_⟩
    . rw [hcounts, hreloc, htotal]
      unfold countedArenas
      rw [map_cons, sum_cons, flatten_cons, length_append, Nat.add_assoc, Nat.add_assoc]
    . obtain ⟨al', hrun, hcompacted⟩ := hrelocates newArena relocated
      obtain ⟨kinds', hrun', hcompacteds⟩ := hruns ((arenaList.arenasAfterCursor.drop j).reverse ++ relocated)
      refine ⟨⟨thingsPerArena, al'⟩ :: kinds', ?_, .cons ⟨rfl, j, hj, hcompacted⟩ hcompacteds⟩
      unfold ArenaLists.relocateKinds
      rw [hrun, some_bind]
      dsimp only
      rw [hrun', flatten_cons, reverse_append, append_assoc]
      rfl

def clearFreeLists (kinds : List (Kind α)) : List (Kind α) :=
  kinds.map fun kind => { kind with arenas := kind.arenas.clearFreeList }

theorem relocateArenas_eq (ShouldRelocateZone : (arenaCount relocCount : Nat) → Bool) (kinds : List (Kind α))
    (relocated : List (Arena α))
    : ArenaLists.relocateArenas newArena false ShouldRelocateZone kinds relocated
      = if ShouldRelocateZone (ArenaLists.pickArenasToRelocate (clearFreeLists kinds) 0 0).2.1
            (ArenaLists.pickArenasToRelocate (clearFreeLists kinds) 0 0).2.2 then
          (ArenaLists.relocateKinds (fun kind => kind.arenas.relocatePicked newArena)
            (ArenaLists.pickArenasToRelocate (clearFreeLists kinds) 0 0).1 relocated).map (true, ·)
        else some (false, relocated, clearFreeLists kinds) := by
  unfold ArenaLists.relocateArenas
  dsimp only
  rw [if_neg Bool.false_ne_true, ite_not, Option.map_eq_bind]
  rfl

theorem relocateArenas_compacts {kinds : List (Kind α)}
    (h : ∀ kind ∈ kinds, kind.arenas.arenaList.Sorted kind.thingsPerArena)
    (ShouldRelocateZone : (arenaCount relocCount : Nat) → Bool) (relocated : List (Arena α))
    : ∃ tails, List.Forall₂ (fun kind tail => kind.arenas.arenaList.IsLongestTail tail) kinds tails
      ∧ if ShouldRelocateZone (countedArenas kinds) tails.flatten.length then
          ∃ kinds', ArenaLists.relocateArenas newArena false ShouldRelocateZone kinds relocated
              = some (true, tails.flatten.reverse ++ relocated, kinds')
            ∧ List.Forall₂ KindCompacted (clearFreeLists kinds) kinds'
        else ArenaLists.relocateArenas newArena false ShouldRelocateZone kinds relocated
          = some (false, relocated, clearFreeLists kinds) := by
  have hsorted : ∀ kind ∈ clearFreeLists kinds, kind.arenas.arenaList.Sorted kind.thingsPerArena
      ∧ kind.arenas.freeList = none := by
    unfold clearFreeLists
    rw [forall_mem_map]
    exact fun kind hkind => ⟨h kind hkind, rfl⟩
  obtain ⟨tails, htails, hcounts, hruns⟩ := relocateKinds_spec newArena hsorted 0 0
  obtain ⟨kinds', hrun, hcompacted⟩ := hruns relocated
  have hcounted : countedArenas (clearFreeLists kinds) = countedArenas kinds := by
    unfold countedArenas clearFreeLists
    rw [map_map]
    rfl
  rw [hcounted, Nat.zero_add, Nat.zero_add] at hcounts
  refine ⟨tails, ?_, ?_⟩
  . unfold clearFreeLists at htails
    rwa [forall₂_map_left_iff] at htails
  rw [relocateArenas_eq, hcounts]
  split
  next => exact ⟨kinds', congrArg (Option.map (true, ·)) hrun, hcompacted⟩
  next => rfl

def threeArenasKind : Kind Nat := ⟨4, ⟨none, threeArenas⟩⟩

-- More than a quarter of the arenas counted.
def relocatesQuarter (arenaCount relocCount : Nat) : Bool := arenaCount < 4 * relocCount

theorem relocateArenas_compacts_threeArenas
    : ∃ tails, List.Forall₂ (fun kind tail => kind.arenas.arenaList.IsLongestTail tail) [threeArenasKind] tails
      ∧ if relocatesQuarter (countedArenas [threeArenasKind]) tails.flatten.length then
          ∃ kinds', ArenaLists.relocateArenas none false relocatesQuarter [threeArenasKind] []
              = some (true, tails.flatten.reverse ++ [], kinds')
            ∧ List.Forall₂ KindCompacted (clearFreeLists [threeArenasKind]) kinds'
        else ArenaLists.relocateArenas none false relocatesQuarter [threeArenasKind] []
          = some (false, [], clearFreeLists [threeArenasKind]) :=
  relocateArenas_compacts none (List.forall_mem_singleton.mpr sorted_threeArenas) relocatesQuarter []

end Kinds

end Compact
end SpiderMonkey.Gc
