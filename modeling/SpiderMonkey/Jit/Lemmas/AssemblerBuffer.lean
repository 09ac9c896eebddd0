import Mathlib.Data.Nat.Find
import SpiderMonkey.Jit.Lemmas.BranchDeadlineSet

/-!
This module contains the rules of a spill: when it places a pool, which branches get a veneer and which are still
pending afterwards, when memory suffices, and that a second spill in its place does nothing.
-/

namespace SpiderMonkey.AssemblerBuffer

open List
open BranchDeadlineSet

variable {cfg : AssemblerBufferConfig} {s : AssemblerBuffer} {reservedBytes numBytes : Nat}

theorem putBytes_eq (hdone : (s.putBytes cfg numBytes).oom = false)
    : s.oom = false ∧ s.putBytes cfg numBytes = { s with nextOffset := s.nextOffset + numBytes } := by
  rw [putBytes] at hdone ⊢
  split at hdone
  next hspace => exact ⟨hdone, if_pos hspace⟩
  next hspace => exact nomatch hdone

theorem putBytesLarge_eq (hdone : (s.putBytesLarge cfg numBytes).oom = false)
    : s.oom = false ∧ s.putBytesLarge cfg numBytes = { s with nextOffset := s.nextOffset + numBytes } := by
  induction numBytes generalizing s with
  | zero => exact ⟨hdone, rfl⟩
  | succ numBytes ih =>
    rw [putBytesLarge] at hdone ⊢
    split at hdone
    next hspace =>
      obtain ⟨hoom, heq⟩ := ih hdone
      refine ⟨hoom, ?_⟩
      rw [if_pos hspace, heq]
      simp only [Nat.add_assoc, Nat.add_comm 1]
    next hspace => exact nomatch hdone

theorem hasExpirable_iff
    : s.hasExpirableShortRangeBranches reservedBytes = true ↔ ∃ deadline, s.branchDeadlines.earliest = some deadline
          ∧ expires (s.nextOffset + reservedBytes) deadline = true := by
  rw [hasExpirableShortRangeBranches]
  cases s.branchDeadlines.earliest with
  | none => simp
  | some deadline => simp [expires]

theorem pendingAfter_eq (h : s.branchDeadlines.Valid) (hnone : ¬s.hasExpirableShortRangeBranches reservedBytes = true)
    : (pendingAfter (s.nextOffset + reservedBytes) s.branchDeadlines).vectors = s.branchDeadlines.vectors
      ∧ expired (s.nextOffset + reservedBytes) s.branchDeadlines = 0 := by
  have hpending : ∀ vec ∈ s.branchDeadlines.vectors, ∀ x ∈ vec, expires (s.nextOffset + reservedBytes) x = false := by
    intro vec hvec x hx
    by_contra hexpires
    rw [Bool.not_eq_false] at hexpires
    obtain ⟨r, hr, rfl⟩ := getElem_of_mem hvec
    have hx' : x ∈ s.branchDeadlines.vectorForRange r := by
      rwa [vectorForRange, getD_eq_getElem?_getD, List.getElem?_eq_getElem hr, Option.getD_some]
    cases hearliest : s.branchDeadlines.earliest with
    | none =>
      rw [h.eq_nil hearliest r] at hx'
      cases hx'
    | some deadline =>
      exact hnone (hasExpirable_iff.mpr ⟨deadline, hearliest,
        expires_of_le hexpires (h.least deadline hearliest r x hx')⟩)
  constructor
  . rw [pendingAfter]
    conv => rhs; rw [← map_id s.branchDeadlines.vectors]
    apply map_congr_left
    intro vec hvec
    rw [id, filter_eq_self]
    intro x hx
    rw [hpending vec hvec x hx, Bool.not_false]
  rw [expired]
  apply sum_eq_zero
  intro n hn
  obtain ⟨vec, hvec, rfl⟩ := mem_map.mp hn
  rw [countP_eq_zero]
  intro x hx
  rw [hpending vec hvec x hx]
  exact Bool.false_ne_true

def poolEnd (cfg : AssemblerBufferConfig) (s : AssemblerBuffer) : Nat :=
  s.nextOffset + (cfg.guardSize + cfg.headerSize) * cfg.instSize + s.pool.getPoolSize

def future (cfg : AssemblerBufferConfig) (start reservedBytes k : Nat) : Nat :=
  start + k * (cfg.guardSize * cfg.instSize) + reservedBytes

variable {k : Nat}

theorem future_add {start : Nat}
    : future cfg (start + cfg.guardSize * cfg.instSize) reservedBytes k = future cfg start reservedBytes (k + 1) := by
  rw [future, future, Nat.succ_mul]
  omega

theorem le_future {start : Nat} (k : Nat)
    : start + reservedBytes ≤ future cfg start reservedBytes k := by
  rw [future]
  omega

structure DueVeneers (cfg : AssemblerBufferConfig) (start reservedBytes : Nat) (set : BranchDeadlineSet) (k : Nat)
    : Prop where
  expired_le : expired (future cfg start reservedBytes k) set ≤ k
  least (k' : Nat) : k' < k → k' < expired (future cfg start reservedBytes k') set

theorem DueVeneers.unique {start k' : Nat} {set : BranchDeadlineSet} (h : DueVeneers cfg start reservedBytes set k)
    (h' : DueVeneers cfg start reservedBytes set k')
    : k = k' := by
  rcases Nat.lt_trichotomy k k' with hlt | heq | hlt
  . have := h'.least k hlt
    have := h.expired_le
    omega
  . exact heq
  . have := h.least k' hlt
    have := h'.expired_le
    omega

theorem expired_le_size {start : Nat} {set : BranchDeadlineSet}
    : expired start set ≤ set.size := by
  rw [expired, size_eq]
  induction set.vectors with
  | nil => exact Nat.le_refl _
  | cons vec vectors ih =>
    rw [map_cons, map_cons, sum_cons, sum_cons]
    exact Nat.add_le_add countP_le_length ih

theorem exists_dueVeneers {start : Nat} (set : BranchDeadlineSet)
    : ∃ k, DueVeneers cfg start reservedBytes set k := by
  have hexists : ∃ k, expired (future cfg start reservedBytes k) set ≤ k := ⟨set.size, expired_le_size⟩
  exact ⟨Nat.find hexists, Nat.find_spec hexists, fun k' hk' => Nat.not_le.mp (Nat.find_min hexists hk')⟩

structure PlacesVeneers (cfg : AssemblerBufferConfig) (reservedBytes : Nat) (s s' : AssemblerBuffer) (k : Nat)
    : Prop where
  eq : s' = { s with
    nextOffset := s.nextOffset + k * (cfg.guardSize * cfg.instSize), branchDeadlines := s'.branchDeadlines }
  valid : s'.branchDeadlines.Valid
  vectors_eq : s'.branchDeadlines.vectors
    = (pendingAfter (future cfg s.nextOffset reservedBytes k) s.branchDeadlines).vectors
  due : DueVeneers cfg s.nextOffset reservedBytes s.branchDeadlines k

theorem placesVeneers_zero (h : s.branchDeadlines.Valid)
    (hnone : ¬s.hasExpirableShortRangeBranches reservedBytes = true)
    : PlacesVeneers cfg reservedBytes s s 0 := by
  have hfuture : future cfg s.nextOffset reservedBytes 0 = s.nextOffset + reservedBytes := by
    rw [future, Nat.zero_mul, Nat.add_zero]
  obtain ⟨hvectors, hexpired⟩ := pendingAfter_eq h hnone
  refine ⟨?_, h, ?_, ?_, fun k' hk' => absurd hk' (Nat.not_lt_zero k')⟩
  . rw [Nat.zero_mul, Nat.add_zero]
  . rw [hfuture, hvectors]
  . rw [hfuture, hexpired]

theorem DueVeneers.succ (h : s.branchDeadlines.Valid) (hearliest : s.branchDeadlines.earliest = some deadline)
    (hexpires : expires (s.nextOffset + reservedBytes) deadline)
    (hdue : DueVeneers cfg (s.nextOffset + cfg.guardSize * cfg.instSize) reservedBytes
      (s.branchDeadlines.removeDeadline s.branchDeadlines.earliestRange deadline) k)
    : DueVeneers cfg s.nextOffset reservedBytes s.branchDeadlines (k + 1) := by
  obtain ⟨-, hremoved⟩ := removeDeadline_earliest h hearliest
  obtain ⟨hexpired, hleast⟩ := hdue
  simp only [future_add] at hexpired hleast
  have hlater (k : Nat) : expires (future cfg s.nextOffset reservedBytes k) deadline :=
    expires_mono hexpires (le_future k)
  refine ⟨?_, fun k' hk' => ?_⟩
  . have := (hremoved _ (hlater (k + 1))).right
    omega
  have hremoved := (hremoved _ (hlater k')).right
  cases k' with
  | zero => omega
  | succ k' =>
    have := hleast k' (by omega)
    omega

variable {s' : AssemblerBuffer}

theorem PlacesVeneers.succ (h : s.branchDeadlines.Valid) (hearliest : s.branchDeadlines.earliest = some deadline)
    (hexpires : expires (s.nextOffset + reservedBytes) deadline) (hplaces : PlacesVeneers cfg reservedBytes { s with
      nextOffset := s.nextOffset + cfg.guardSize * cfg.instSize
      branchDeadlines := s.branchDeadlines.removeDeadline s.branchDeadlines.earliestRange deadline } s' k)
    : PlacesVeneers cfg reservedBytes s s' (k + 1) := by
  obtain ⟨heq, hvalid, hvectors, hdue⟩ := hplaces
  obtain ⟨-, hremoved⟩ := removeDeadline_earliest h hearliest
  refine ⟨?_, hvalid, ?_, hdue.succ h hearliest hexpires⟩
  . rw [heq]
    simp only [Nat.succ_mul, Nat.add_assoc, Nat.add_comm (cfg.guardSize * cfg.instSize)]
  . simp only [future_add] at hvectors
    rw [hvectors, (hremoved _ (expires_mono hexpires (le_future _))).left]

theorem exists_placesVeneers (h : s.branchDeadlines.Valid)
    (hrounds : s.branchDeadlines.size ≤ rounds) (hdone : (s.placeVeneers cfg reservedBytes rounds).oom = false)
    : ∃ k, PlacesVeneers cfg reservedBytes s (s.placeVeneers cfg reservedBytes rounds) k := by
  induction rounds generalizing s with
  | zero =>
    refine ⟨0, placesVeneers_zero h fun hexpirable => ?_⟩
    obtain ⟨deadline, hearliest, -⟩ := hasExpirable_iff.mp hexpirable
    have := (removeDeadline_earliest h hearliest).left
    omega
  | succ rounds ih =>
    by_cases hexpirable : s.hasExpirableShortRangeBranches reservedBytes = true
    . obtain ⟨deadline, hearliest, hexpires⟩ := hasExpirable_iff.mp hexpirable
      have hsize := (removeDeadline_earliest h hearliest).left
      rw [placeVeneers] at hdone ⊢
      simp only [hexpirable, ↓reduceIte, hearliest] at hdone ⊢
      split at hdone
      next hoom => exact absurd hdone (by rw [hoom]; decide)
      next hoom =>
        rw [if_neg hoom]
        rw [Bool.not_eq_true] at hoom
        rw [(putBytes_eq hoom).right] at hdone ⊢
        obtain ⟨k, hplaces⟩ := @ih { s with
          nextOffset := s.nextOffset + cfg.guardSize * cfg.instSize
          branchDeadlines := s.branchDeadlines.removeDeadline s.branchDeadlines.earliestRange deadline }
          (removeDeadline_valid h) (by simp only; omega) hdone
        exact ⟨k + 1, hplaces.succ h hearliest hexpires⟩
    . refine ⟨0, ?_⟩
      have hstop : s.placeVeneers cfg reservedBytes (rounds + 1) = s := by simp [placeVeneers, hexpirable]
      rw [hstop]
      exact placesVeneers_zero h hexpirable

section FinishPool

theorem putBytes_oom_iff
    : (s.putBytes cfg numBytes).oom = false ↔ s.oom = false ∧ cfg.ensureSpace s.nextOffset numBytes = true := by
  rw [putBytes]
  split
  next hspace => simp [hspace]
  next hspace => simp [hspace]

theorem putBytesLarge_oom_iff
    : (s.putBytesLarge cfg numBytes).oom = false
        ↔ s.oom = false ∧ ∀ i < numBytes, cfg.ensureSpace (s.nextOffset + i) 1 = true := by
  induction numBytes generalizing s with
  | zero => simp [putBytesLarge]
  | succ numBytes ih =>
    rw [putBytesLarge]
    split
    next hspace =>
      rw [ih, Nat.forall_lt_succ_left]
      simp only [Nat.add_zero, hspace, true_and, Nat.add_assoc, Nat.add_comm 1]
    next hspace =>
      refine iff_of_false Bool.noConfusion fun hgranted => hspace (hgranted.right 0 (Nat.succ_pos numBytes))

theorem placeVeneers_oom_iff (h : s.branchDeadlines.Valid) (hoom : s.oom = false)
    (hrounds : s.branchDeadlines.size ≤ rounds) (hdue : DueVeneers cfg s.nextOffset reservedBytes s.branchDeadlines k)
    : (s.placeVeneers cfg reservedBytes rounds).oom = false
        ↔ ∀ i < k, cfg.ensureSpace (s.nextOffset + i * (cfg.guardSize * cfg.instSize))
            (cfg.guardSize * cfg.instSize) = true := by
  induction rounds generalizing s k with
  | zero =>
    have hnone : ¬s.hasExpirableShortRangeBranches reservedBytes = true := fun hexpirable => by
      obtain ⟨deadline, hearliest, -⟩ := hasExpirable_iff.mp hexpirable
      have := (removeDeadline_earliest h hearliest).left
      omega
    rw [hdue.unique (placesVeneers_zero h hnone).due]
    exact iff_of_true hoom fun i hi => absurd hi (Nat.not_lt_zero i)
  | succ rounds ih =>
    by_cases hexpirable : s.hasExpirableShortRangeBranches reservedBytes = true
    . obtain ⟨deadline, hearliest, hexpires⟩ := hasExpirable_iff.mp hexpirable
      have hsize := (removeDeadline_earliest h hearliest).left
      obtain ⟨k', hdue'⟩ := @exists_dueVeneers cfg reservedBytes (s.nextOffset + cfg.guardSize * cfg.instSize)
        (s.branchDeadlines.removeDeadline s.branchDeadlines.earliestRange deadline)
      rw [hdue.unique (hdue'.succ h hearliest hexpires), Nat.forall_lt_succ_left, placeVeneers]
      simp only [hexpirable, ↓reduceIte, hearliest, Nat.zero_mul, Nat.add_zero]
      split
      next hrefused =>
        refine iff_of_false (fun hdone => absurd hdone (by rw [hrefused]; decide)) fun hgranted => ?_
        have hdone := (putBytes_oom_iff (s := { s with
          branchDeadlines := s.branchDeadlines.removeDeadline s.branchDeadlines.earliestRange deadline })).mpr
          ⟨hoom, hgranted.left⟩
        exact absurd hdone (by rw [hrefused]; decide)
      next hgranted =>
        rw [Bool.not_eq_true] at hgranted
        rw [(putBytes_eq hgranted).right]
        rw [@ih { s with
          nextOffset := s.nextOffset + cfg.guardSize * cfg.instSize
          branchDeadlines := s.branchDeadlines.removeDeadline s.branchDeadlines.earliestRange deadline } _
          (removeDeadline_valid h) hoom (by simp only; omega) hdue']
        simp only [(putBytes_oom_iff.mp hgranted).right, true_and, Nat.succ_mul, Nat.add_assoc,
          Nat.add_comm (cfg.guardSize * cfg.instSize)]
    . have hstop : s.placeVeneers cfg reservedBytes (rounds + 1) = s := by simp [placeVeneers, hexpirable]
      rw [hstop, hdue.unique (placesVeneers_zero h hexpirable).due]
      exact iff_of_true hoom fun i hi => absurd hi (Nat.not_lt_zero i)

def dumpPool (cfg : AssemblerBufferConfig) (s : AssemblerBuffer) : AssemblerBuffer :=
  let s := s.putBytes cfg (cfg.guardSize * cfg.instSize)
  let s := s.putBytes cfg (cfg.headerSize * cfg.instSize)
  s.putBytesLarge cfg s.pool.getPoolSize

def afterPool (cfg : AssemblerBufferConfig) (s : AssemblerBuffer) : AssemblerBuffer :=
  { s with nextOffset := s.poolEnd cfg }

structure Granted (cfg : AssemblerBufferConfig) (s : AssemblerBuffer) (k : Nat) : Prop where
  guard : cfg.ensureSpace s.nextOffset (cfg.guardSize * cfg.instSize) = true
  header : cfg.ensureSpace (s.nextOffset + cfg.guardSize * cfg.instSize) (cfg.headerSize * cfg.instSize) = true
  data (i : Nat) : i < s.pool.getPoolSize
    → cfg.ensureSpace (s.nextOffset + (cfg.guardSize + cfg.headerSize) * cfg.instSize + i) 1 = true
  veneers (i : Nat) : i < k
    → cfg.ensureSpace (s.poolEnd cfg + i * (cfg.guardSize * cfg.instSize)) (cfg.guardSize * cfg.instSize) = true
  info : cfg.append s.poolInfo.length = true

theorem dumpPool_eq (hdone : (s.dumpPool cfg).oom = false)
    : s.dumpPool cfg = s.afterPool cfg := by
  obtain ⟨hheader, hpool⟩ := putBytesLarge_eq hdone
  obtain ⟨hguard, hheader⟩ := putBytes_eq hheader
  obtain ⟨-, hguard⟩ := putBytes_eq hguard
  rw [dumpPool, hpool, hheader, hguard, afterPool, poolEnd]
  simp only [Nat.add_mul, Nat.add_assoc]

theorem dumpPool_oom_iff
    : (s.dumpPool cfg).oom = false ↔ s.oom = false ∧ cfg.ensureSpace s.nextOffset (cfg.guardSize * cfg.instSize) = true
          ∧ cfg.ensureSpace (s.nextOffset + cfg.guardSize * cfg.instSize) (cfg.headerSize * cfg.instSize) = true
          ∧ ∀ i < s.pool.getPoolSize,
              cfg.ensureSpace (s.nextOffset + (cfg.guardSize + cfg.headerSize) * cfg.instSize + i) 1 = true := by
  rw [dumpPool, putBytesLarge_oom_iff, putBytes_oom_iff, putBytes_oom_iff]
  by_cases hguard : s.oom = false ∧ cfg.ensureSpace s.nextOffset (cfg.guardSize * cfg.instSize) = true
  . rw [(putBytes_eq (putBytes_oom_iff.mpr hguard)).right]
    by_cases hheader : cfg.ensureSpace (s.nextOffset + cfg.guardSize * cfg.instSize)
        (cfg.headerSize * cfg.instSize) = true
    . simp only [putBytes, hheader, ↓reduceIte, hguard, true_and, Nat.add_mul, Nat.add_assoc]
    . simp [hheader]
  . tauto

theorem finishPool_of_not_empty (hempty : ¬s.isPoolEmptyFor (max reservedBytes ShortRangeBranchHysteresis) = true)
    (hgranted : (s.dumpPool cfg).oom = false)
    : s.finishPool cfg reservedBytes
        = let s' := (s.afterPool cfg).placeVeneers cfg (max reservedBytes ShortRangeBranchHysteresis)
            s.branchDeadlines.size
          if s'.oom then s'
          else if cfg.append s'.poolInfo.length then { s' with
              poolInfo := s'.poolInfo ++ [(s'.poolEntryCount - s'.pool.numEntries, s.nextOffset
                + (cfg.guardSize + cfg.headerSize) * cfg.instSize)]
              pool := s'.pool.reset }
          else { s' with oom := true } := by
  have heq := dumpPool_eq hgranted
  obtain ⟨hheader, -⟩ := putBytesLarge_eq hgranted
  obtain ⟨hguard, hheader⟩ := putBytes_eq hheader
  obtain ⟨-, hguard⟩ := putBytes_eq hguard
  have hdata : ((s.putBytes cfg (cfg.guardSize * cfg.instSize)).putBytes cfg (cfg.headerSize * cfg.instSize)).nextOffset
        = s.nextOffset + (cfg.guardSize + cfg.headerSize) * cfg.instSize := by
    rw [hheader, hguard, Nat.add_mul, Nat.add_assoc]
  rw [finishPool, if_neg hempty]
  rw [heq] at hgranted
  simp only [dumpPool] at heq
  simp only [heq, hgranted, Bool.false_eq_true, ↓reduceIte, hdata]
  rfl

structure PlacesPool (cfg : AssemblerBufferConfig) (reservedBytes : Nat) (s s' : AssemblerBuffer) (k : Nat) : Prop where
  nextOffset_eq : s'.nextOffset = s.poolEnd cfg + k * (cfg.guardSize * cfg.instSize)
  pool_eq : s'.pool = s.pool.reset
  valid : s'.branchDeadlines.Valid
  vectors_eq : s'.branchDeadlines.vectors
    = (pendingAfter (future cfg (s.poolEnd cfg) reservedBytes k) s.branchDeadlines).vectors
  due : DueVeneers cfg (s.poolEnd cfg) reservedBytes s.branchDeadlines k

theorem finishPool_oom_of_dumpPool (hempty : ¬s.isPoolEmptyFor (max reservedBytes ShortRangeBranchHysteresis) = true)
    (hrefused : (s.dumpPool cfg).oom = true)
    : (s.finishPool cfg reservedBytes).oom = true := by
  rw [finishPool, if_neg hempty]
  simp only [dumpPool] at hrefused
  simp only [hrefused, ↓reduceIte]

theorem exists_placesPool (h : s.branchDeadlines.Valid)
    (hempty : ¬s.isPoolEmptyFor (max reservedBytes ShortRangeBranchHysteresis) = true)
    (hdone : (s.finishPool cfg reservedBytes).oom = false)
    : ∃ k, PlacesPool cfg (max reservedBytes ShortRangeBranchHysteresis) s (s.finishPool cfg reservedBytes) k := by
  have hgranted : (s.dumpPool cfg).oom = false := by
    by_contra hrefused
    rw [Bool.not_eq_false] at hrefused
    rw [finishPool_oom_of_dumpPool hempty hrefused] at hdone
    exact nomatch hdone
  rw [finishPool_of_not_empty hempty hgranted] at hdone ⊢
  dsimp only at hdone ⊢
  split at hdone
  next hrefused => exact absurd hdone (by rw [hrefused]; decide)
  next hoom =>
    rw [if_neg hoom]
    rw [Bool.not_eq_true] at hoom
    obtain ⟨k, heq, hvalid, hvectors, hdue⟩ := exists_placesVeneers (s := s.afterPool cfg) h
        (Nat.le_refl s.branchDeadlines.size) hoom
    split at hdone
    next hinfo =>
      rw [if_pos hinfo]
      refine ⟨k, ?_, ?_, hvalid, hvectors, hdue⟩
      . exact congrArg AssemblerBuffer.nextOffset heq
      . exact congrArg (·.pool.reset) heq
    next hinfo => exact nomatch hdone

theorem finishPool_oom_iff (h : s.branchDeadlines.Valid) (hoom : s.oom = false)
    (hempty : ¬s.isPoolEmptyFor (max reservedBytes ShortRangeBranchHysteresis) = true)
    (hdue : DueVeneers cfg (s.poolEnd cfg) (max reservedBytes ShortRangeBranchHysteresis) s.branchDeadlines k)
    : (s.finishPool cfg reservedBytes).oom = false ↔ Granted cfg s k := by
  cases hdump : (s.dumpPool cfg).oom with
  | true =>
    refine iff_of_false (fun hdone => ?_) fun hgranted => ?_
    . rw [finishPool_oom_of_dumpPool hempty hdump] at hdone
      exact nomatch hdone
    . rw [dumpPool_oom_iff.mpr ⟨hoom, hgranted.guard, hgranted.header, hgranted.data⟩] at hdump
      exact nomatch hdump
  | false =>
    obtain ⟨-, hguard, hheader, hdata⟩ := dumpPool_oom_iff.mp hdump
    have hveneers := placeVeneers_oom_iff (s := s.afterPool cfg) h hoom (Nat.le_refl s.branchDeadlines.size) hdue
    rw [finishPool_of_not_empty hempty hdump]
    dsimp only
    split
    next hrefused =>
      refine iff_of_false (fun hdone => absurd hdone (by rw [hrefused]; decide)) fun hgranted => ?_
      exact absurd (hveneers.mpr hgranted.veneers) (by rw [hrefused]; decide)
    next hplaced =>
      rw [Bool.not_eq_true] at hplaced
      obtain ⟨k', heq, -⟩ := exists_placesVeneers (s := s.afterPool cfg) h (Nat.le_refl s.branchDeadlines.size) hplaced
      have hinfo : ((s.afterPool cfg).placeVeneers cfg (max reservedBytes ShortRangeBranchHysteresis)
          s.branchDeadlines.size).poolInfo = s.poolInfo := by
        rw [heq]
        rfl
      rw [hinfo]
      split
      next happend => exact iff_of_true hplaced ⟨hguard, hheader, hdata, hveneers.mp hplaced, happend⟩
      next happend => exact iff_of_false Bool.noConfusion fun hgranted => happend hgranted.info

end FinishPool

section Space

variable {numInst numPoolEntries : Nat}

theorem updateLimiter_numEntries {pool : Pool}
    : (pool.updateLimiter nextInst).numEntries = pool.numEntries := by
  rw [Pool.updateLimiter]
  split
  . rfl
  . dsimp only
    split <;> rfl

theorem updateLimiter_idem {pool : Pool}
    : (pool.updateLimiter nextInst).updateLimiter nextInst = pool.updateLimiter nextInst := by
  have hsame (limitingUsee : Nat) (h : limitingUsee = pool.numEntries)
      : Pool.updateLimiter { pool with limitingUser := some nextInst, limitingUsee } nextInst
          = { pool with limitingUser := some nextInst, limitingUsee } := by
    rw [h, Pool.updateLimiter]
    exact if_neg (Int.lt_irrefl _)
  cases hlimiter : pool.limitingUser with
  | none =>
    have heq : pool.updateLimiter nextInst
        = { pool with limitingUser := some nextInst, limitingUsee := pool.numEntries } := by
      rw [Pool.updateLimiter, hlimiter]
    rw [heq, hsame _ rfl]
  | some limitingUser =>
    by_cases hlt : (pool.getPoolSize - (nextInst : Int))
        > (pool.limitingUsee * sizeofPoolAllocUnit : Nat) - (limitingUser : Int)
    . have heq : pool.updateLimiter nextInst
          = { pool with limitingUser := some nextInst, limitingUsee := pool.numEntries } := by
        rw [Pool.updateLimiter, hlimiter]
        exact if_pos hlt
      rw [heq, hsame _ rfl]
    . have heq : pool.updateLimiter nextInst = pool := by
        rw [Pool.updateLimiter, hlimiter]
        exact if_neg hlt
      rw [heq, heq]

section UpdateLimiter

@[simp]
theorem updateLimiter_nextOffset : (s.updateLimiter numPoolEntries).nextOffset = s.nextOffset := by
  rw [updateLimiter]
  split <;> rfl

@[simp]
theorem updateLimiter_oom : (s.updateLimiter numPoolEntries).oom = s.oom := by
  rw [updateLimiter]
  split <;> rfl

@[simp]
theorem updateLimiter_branchDeadlines : (s.updateLimiter numPoolEntries).branchDeadlines = s.branchDeadlines := by
  rw [updateLimiter]
  split <;> rfl

@[simp]
theorem updateLimiter_poolInfo : (s.updateLimiter numPoolEntries).poolInfo = s.poolInfo := by
  rw [updateLimiter]
  split <;> rfl

@[simp]
theorem updateLimiter_pool_numEntries : (s.updateLimiter numPoolEntries).pool.numEntries = s.pool.numEntries := by
  rw [updateLimiter]
  split
  . exact updateLimiter_numEntries
  . rfl

theorem updateLimiter_updateLimiter
    : (s.updateLimiter numPoolEntries).updateLimiter numPoolEntries = s.updateLimiter numPoolEntries := by
  rw [updateLimiter, updateLimiter]
  split
  . simp only [updateLimiter_idem]
  . rfl

theorem isPoolEmptyFor_updateLimiter {bytes : Nat}
    : (s.updateLimiter numPoolEntries).isPoolEmptyFor bytes = s.isPoolEmptyFor bytes := by
  simp only [isPoolEmptyFor, hasExpirableShortRangeBranches, updateLimiter_pool_numEntries,
    updateLimiter_branchDeadlines, updateLimiter_nextOffset]

theorem poolEnd_updateLimiter
    : (s.updateLimiter numPoolEntries).poolEnd cfg = s.poolEnd cfg := by
  simp only [poolEnd, Pool.getPoolSize, updateLimiter_pool_numEntries, updateLimiter_nextOffset]

theorem granted_updateLimiter
    : Granted cfg (s.updateLimiter numPoolEntries) k ↔ Granted cfg s k := by
  have hsize : (s.updateLimiter numPoolEntries).pool.getPoolSize = s.pool.getPoolSize := by
    simp only [Pool.getPoolSize, updateLimiter_pool_numEntries]
  constructor
  . rintro ⟨hguard, hheader, hdata, hveneers, hinfo⟩
    simp only [updateLimiter_nextOffset, updateLimiter_poolInfo, hsize, poolEnd_updateLimiter]
      at hguard hheader hdata hveneers hinfo
    exact ⟨hguard, hheader, hdata, hveneers, hinfo⟩
  . rintro ⟨hguard, hheader, hdata, hveneers, hinfo⟩
    constructor <;> simpa only [updateLimiter_nextOffset, updateLimiter_poolInfo, hsize, poolEnd_updateLimiter]

end UpdateLimiter

-- The offset that the code reaches with some more instructions and entries, when all the branches that are pending
-- get a veneer but those of the largest range
def reach (cfg : AssemblerBufferConfig) (numInst numPoolEntries offset : Nat) (set : BranchDeadlineSet) : Nat :=
  offset + (numInst + cfg.guardSize + cfg.headerSize) * cfg.instSize + numPoolEntries * sizeofPoolAllocUnit
    + cfg.guardSize * (set.size - set.maxRangeSize)

def Reaches (cfg : AssemblerBufferConfig) (numInst numPoolEntries offset : Nat) (set : BranchDeadlineSet) : Prop :=
  ∀ r, ∀ deadline ∈ set.vectorForRange r, reach cfg numInst numPoolEntries offset set ≤ deadline

theorem reaches_of_vectors_eq {offset : Nat} {set set' : BranchDeadlineSet} (h : set.vectors = set'.vectors)
    : Reaches cfg numInst numPoolEntries offset set ↔ Reaches cfg numInst numPoolEntries offset set' := by
  simp only [Reaches, reach, size, maxRangeSize, vectorForRange, h]

def Fits (cfg : AssemblerBufferConfig) (numInst numPoolEntries : Nat) : Prop :=
  ((init 0).updateLimiter numPoolEntries).hasSpaceForInsts cfg numInst numPoolEntries = true

theorem hasSpaceForInsts_iff (h : s.branchDeadlines.Valid)
    : s.hasSpaceForInsts cfg numInst numPoolEntries = true ↔ s.pool.checkFull cfg.poolMaxOffset cfg.pcBias
            (s.nextOffset + (numInst + cfg.guardSize + cfg.headerSize) * cfg.instSize) = false
          ∧ Reaches cfg numInst numPoolEntries (s.nextOffset + s.pool.getPoolSize) s.branchDeadlines := by
  rw [hasSpaceForInsts]
  dsimp only
  split
  next hfull => simp [hfull]
  next hfull =>
    rw [Bool.not_eq_true] at hfull
    rw [hfull]
    simp only [true_and]
    cases hearliest : s.branchDeadlines.earliest with
    | none =>
      refine iff_of_true rfl fun r deadline hmem => ?_
      rw [h.eq_nil hearliest r] at hmem
      exact nomatch hmem
    | some earliest =>
      have hreach : s.nextOffset + (numInst + cfg.guardSize + cfg.headerSize) * cfg.instSize + s.pool.getPoolSize
          + numPoolEntries * sizeofPoolAllocUnit
          + cfg.guardSize * (s.branchDeadlines.size - s.branchDeadlines.maxRangeSize)
          = reach cfg numInst numPoolEntries (s.nextOffset + s.pool.getPoolSize) s.branchDeadlines := by
        rw [reach]
        omega
      rw [hreach, Bool.not_eq_true', decide_eq_false_iff_not, Nat.not_lt]
      constructor
      . exact fun hle r deadline hmem => Nat.le_trans hle (h.least earliest hearliest r deadline hmem)
      . exact fun hreaches => hreaches _ earliest (mem_of_head? (h.head earliest hearliest))

theorem checkFull_reset {pool : Pool} {maxOffset bias bytes : Nat} (hpool : s.pool = Pool.reset pool)
    : (s.updateLimiter numPoolEntries).pool.checkFull maxOffset bias (s.nextOffset + bytes)
        = ((init 0).updateLimiter numPoolEntries).pool.checkFull maxOffset bias (0 + bytes) := by
  rw [updateLimiter, updateLimiter]
  split
  next hentries =>
    have hoffset : ((s.nextOffset + bytes + 0 * sizeofPoolAllocUnit : Nat) - (s.nextOffset + bias : Int))
        = ((0 + bytes + 0 * sizeofPoolAllocUnit : Nat) - (((0 : Nat) : Int) + bias : Int)) := by
      push_cast
      omega
    simp only [hpool, Pool.reset, init, Pool.updateLimiter, Pool.checkFull, Pool.numEntries, length_nil]
    exact congrArg (fun offset : Int => decide (offset % 2 ^ 64 ≥ maxOffset)) hoffset
  next hentries =>
    rw [hpool]
    rfl

theorem init_valid
    : (init numShortBranchRanges).branchDeadlines.Valid := by
  have hnil (r : Nat) : (init numShortBranchRanges).branchDeadlines.vectorForRange r = [] := by
    simp only [init, vectorForRange, getD_eq_getElem?_getD, List.getElem?_replicate]
    split <;> rfl
  refine ⟨fun r => ?_, fun _ => hnil, fun d hd => absurd hd (by simp [init]), fun d hd => absurd hd (by simp [init])⟩
  rw [hnil]
  exact List.Pairwise.nil

theorem PlacesPool.isPoolEmptyFor (h : PlacesPool cfg reservedBytes s s' k)
    : s'.isPoolEmptyFor reservedBytes = true := by
  have hnone : ¬s'.hasExpirableShortRangeBranches reservedBytes = true := fun hexpirable => by
    obtain ⟨deadline, hearliest, hexpires⟩ := hasExpirable_iff.mp hexpirable
    have hmem := mem_of_head? (h.valid.head deadline hearliest)
    have hfuture : s'.nextOffset + reservedBytes = future cfg (s.poolEnd cfg) reservedBytes k := by
      rw [h.nextOffset_eq, future]
    rw [vectorForRange, h.vectors_eq, ← vectorForRange, vectorForRange_pendingAfter, ← hfuture] at hmem
    simp [hexpires] at hmem
  rw [AssemblerBuffer.isPoolEmptyFor, h.pool_eq]
  simp only [hnone, Bool.not_false, Bool.and_true]
  rfl

theorem PlacesPool.hasSpaceForInsts_iff (h : PlacesPool cfg reservedBytes s s' k)
    (hfits : Fits cfg numInst numPoolEntries)
    : (s'.updateLimiter numPoolEntries).hasSpaceForInsts cfg numInst numPoolEntries = true
        ↔ Reaches cfg numInst numPoolEntries (s.poolEnd cfg + k * (cfg.guardSize * cfg.instSize))
            (pendingAfter (future cfg (s.poolEnd cfg) reservedBytes k) s.branchDeadlines) := by
  have hfresh : ((init 0).updateLimiter numPoolEntries).branchDeadlines.Valid := by
    rw [updateLimiter_branchDeadlines]
    exact init_valid
  have hfull := ((AssemblerBuffer.hasSpaceForInsts_iff hfresh).mp hfits).left
  have hsize : (s'.updateLimiter numPoolEntries).pool.getPoolSize = 0 := by
    rw [Pool.getPoolSize, updateLimiter_pool_numEntries, h.pool_eq]
    exact Nat.zero_mul _
  rw [AssemblerBuffer.hasSpaceForInsts_iff (by rw [updateLimiter_branchDeadlines]; exact h.valid),
    updateLimiter_branchDeadlines, updateLimiter_nextOffset, hsize, Nat.add_zero, ← h.nextOffset_eq,
    checkFull_reset h.pool_eq]
  rw [updateLimiter_nextOffset] at hfull
  simp only [← reaches_of_vectors_eq h.vectors_eq]
  exact and_iff_right hfull

end Space

section Spill

variable {numInst numPoolEntries : Nat}

structure SpillSuffices (cfg : AssemblerBufferConfig) (numInst numPoolEntries : Nat) (s : AssemblerBuffer) : Prop where
  not_empty : ¬s.isPoolEmptyFor (max (numInst * cfg.instSize) ShortRangeBranchHysteresis) = true
  reaches (k : Nat)
    : DueVeneers cfg (s.poolEnd cfg) (max (numInst * cfg.instSize) ShortRangeBranchHysteresis) s.branchDeadlines k
      → Granted cfg s k
      → Reaches cfg numInst numPoolEntries (s.poolEnd cfg + k * (cfg.guardSize * cfg.instSize))
          (pendingAfter (future cfg (s.poolEnd cfg) (max (numInst * cfg.instSize) ShortRangeBranchHysteresis) k)
            s.branchDeadlines)

theorem finishPool_of_empty (hempty : s.isPoolEmptyFor (max reservedBytes ShortRangeBranchHysteresis) = true)
    : s.finishPool cfg reservedBytes = s := by
  rw [finishPool]
  exact if_pos hempty

theorem isPoolEmptyFor_finishPool (h : s.branchDeadlines.Valid) (hdone : (s.finishPool cfg reservedBytes).oom = false)
    : (s.finishPool cfg reservedBytes).isPoolEmptyFor (max reservedBytes ShortRangeBranchHysteresis) = true := by
  by_cases hempty : s.isPoolEmptyFor (max reservedBytes ShortRangeBranchHysteresis) = true
  . rw [finishPool_of_empty hempty]
    exact hempty
  . obtain ⟨k, hplaces⟩ := exists_placesPool h hempty hdone
    exact hplaces.isPoolEmptyFor

theorem finishPool_makes_space_iff (h : s.branchDeadlines.Valid) (hoom : s.oom = false)
    (hfits : Fits cfg numInst numPoolEntries)
    (hspace : ¬(s.updateLimiter numPoolEntries).hasSpaceForInsts cfg numInst numPoolEntries = true)
    : ((s.updateLimiter numPoolEntries).finishPool cfg (numInst * cfg.instSize)).oom = true
        ∨ (((s.updateLimiter numPoolEntries).finishPool cfg (numInst * cfg.instSize)).updateLimiter
            numPoolEntries).hasSpaceForInsts cfg numInst numPoolEntries = true
      ↔ SpillSuffices cfg numInst numPoolEntries s := by
  have hvalid : (s.updateLimiter numPoolEntries).branchDeadlines.Valid := by
    rw [updateLimiter_branchDeadlines]
    exact h
  have hoom' : (s.updateLimiter numPoolEntries).oom = false := by rw [updateLimiter_oom, hoom]
  by_cases hempty : s.isPoolEmptyFor (max (numInst * cfg.instSize) ShortRangeBranchHysteresis) = true
  . refine iff_of_false ?_ fun hsuffices => hsuffices.not_empty hempty
    rw [finishPool_of_empty (by rw [isPoolEmptyFor_updateLimiter, hempty]), updateLimiter_updateLimiter, hoom']
    simp [hspace]
  have hempty' := hempty
  rw [← @isPoolEmptyFor_updateLimiter _ numPoolEntries] at hempty'
  obtain ⟨k, hdue⟩ := @exists_dueVeneers cfg (max (numInst * cfg.instSize) ShortRangeBranchHysteresis)
    (s.poolEnd cfg) s.branchDeadlines
  have hgranted : ((s.updateLimiter numPoolEntries).finishPool cfg (numInst * cfg.instSize)).oom = false
      ↔ Granted cfg s k := by
    rw [finishPool_oom_iff (k := k) hvalid hoom' hempty' (by simpa [poolEnd_updateLimiter] using hdue)]
    exact granted_updateLimiter
  constructor
  . intro hmakes
    refine ⟨hempty, fun k' hdue' hgranted' => ?_⟩
    rw [hdue'.unique hdue] at hgranted' ⊢
    have hdone := hgranted.mpr hgranted'
    obtain ⟨k', hplaces⟩ := exists_placesPool hvalid hempty' hdone
    have hspace' := hmakes.resolve_left (by rw [hdone]; decide)
    have hreaches := (hplaces.hasSpaceForInsts_iff hfits).mp hspace'
    have hdue'' := hplaces.due
    rw [poolEnd_updateLimiter, updateLimiter_branchDeadlines] at hdue'' hreaches
    rwa [hdue''.unique hdue] at hreaches
  . intro hsuffices
    by_cases hdone : ((s.updateLimiter numPoolEntries).finishPool cfg (numInst * cfg.instSize)).oom = false
    . obtain ⟨k', hplaces⟩ := exists_placesPool hvalid hempty' hdone
      have hdue'' := hplaces.due
      rw [poolEnd_updateLimiter, updateLimiter_branchDeadlines] at hdue''
      refine Or.inr ((hplaces.hasSpaceForInsts_iff hfits).mpr ?_)
      rw [poolEnd_updateLimiter, updateLimiter_branchDeadlines, hdue''.unique hdue]
      exact hsuffices.reaches k hdue (hgranted.mp hdone)
    . exact Or.inl (by simpa using hdone)

theorem finishPool_oom_of_oom (hoom : s.oom = true)
    : (s.finishPool cfg reservedBytes).oom = true := by
  by_cases hempty : s.isPoolEmptyFor (max reservedBytes ShortRangeBranchHysteresis) = true
  . rw [finishPool_of_empty hempty, hoom]
  apply finishPool_oom_of_dumpPool hempty
  by_contra hdump
  rw [Bool.not_eq_true, dumpPool_oom_iff, hoom] at hdump
  exact nomatch hdump.left

variable {data : List (BitVec 32)}

theorem insertEntryForwards_stuck (hoom : s.oom = false)
    (hempty : s.isPoolEmptyFor (max (numInst * cfg.instSize) ShortRangeBranchHysteresis) = true)
    (hspace : ¬(s.updateLimiter data.length).hasSpaceForInsts cfg numInst data.length = true) (rounds : Nat)
    : s.insertEntryForwards cfg numInst data rounds = none := by
  induction rounds generalizing s with
  | zero => rfl
  | succ rounds ih =>
    have hempty' := hempty
    rw [← @isPoolEmptyFor_updateLimiter _ data.length] at hempty'
    have hoom' : (s.updateLimiter data.length).oom = false := by rw [updateLimiter_oom, hoom]
    rw [insertEntryForwards]
    simp only [hspace, Bool.not_false, ↓reduceIte, finishPool_of_empty hempty', hoom', Bool.false_eq_true]
    apply ih hoom' hempty'
    rwa [updateLimiter_updateLimiter]

theorem insertEntryForwards_of_space (rounds : Nat)
    (hspace : (s.updateLimiter data.length).hasSpaceForInsts cfg numInst data.length = true)
    : ∃ result, s.insertEntryForwards cfg numInst data (rounds + 1) = some result := by
  rw [insertEntryForwards]
  simp only [hspace, Bool.not_true, Bool.false_eq_true, ↓reduceIte]
  split
  . exact ⟨_, rfl⟩
  . exact ⟨_, rfl⟩

theorem insertEntryForwards_returns_iff (h : s.branchDeadlines.Valid)
    (hspace : ¬(s.updateLimiter data.length).hasSpaceForInsts cfg numInst data.length = true)
    : (∃ rounds result, s.insertEntryForwards cfg numInst data rounds = some result)
        ↔ ((s.updateLimiter data.length).finishPool cfg (numInst * cfg.instSize)).oom = true
          ∨ (((s.updateLimiter data.length).finishPool cfg (numInst * cfg.instSize)).updateLimiter
              data.length).hasSpaceForInsts cfg numInst data.length = true := by
  have hround (rounds : Nat) : s.insertEntryForwards cfg numInst data (rounds + 1)
      = let s := (s.updateLimiter data.length).finishPool cfg (numInst * cfg.instSize)
        if s.oom then some (s, .OOM_FAIL) else s.insertEntryForwards cfg numInst data rounds := by
    rw [insertEntryForwards]
    simp only [hspace, Bool.not_false, ↓reduceIte]
  constructor
  . rintro ⟨rounds, result, hreturns⟩
    by_contra hstuck
    rw [not_or, Bool.not_eq_true] at hstuck
    cases rounds with
    | zero => exact nomatch hreturns
    | succ rounds =>
      have hempty := isPoolEmptyFor_finishPool (by rwa [updateLimiter_branchDeadlines]) hstuck.left
      rw [hround] at hreturns
      simp only [hstuck.left, Bool.false_eq_true, ↓reduceIte,
        insertEntryForwards_stuck hstuck.left hempty hstuck.right] at hreturns
      exact nomatch hreturns
  intro hdone
  cases hoom : ((s.updateLimiter data.length).finishPool cfg (numInst * cfg.instSize)).oom with
  | true =>
    refine ⟨1, ((s.updateLimiter data.length).finishPool cfg (numInst * cfg.instSize), .OOM_FAIL), ?_⟩
    rw [hround]
    simp only [hoom, ↓reduceIte]
  | false =>
    have hspace' := hdone.resolve_left (by rw [hoom]; decide)
    obtain ⟨result, hreturns⟩ := insertEntryForwards_of_space 0 hspace'
    refine ⟨2, result, ?_⟩
    rw [hround]
    simp only [hoom, Bool.false_eq_true, ↓reduceIte]
    exact hreturns

end Spill

section Valid

@[simp]
theorem putBytes_branchDeadlines : (s.putBytes cfg numBytes).branchDeadlines = s.branchDeadlines := by
  rw [putBytes]
  split <;> rfl

@[simp]
theorem putBytesLarge_branchDeadlines : (s.putBytesLarge cfg numBytes).branchDeadlines = s.branchDeadlines := by
  induction numBytes generalizing s with
  | zero => rfl
  | succ numBytes ih =>
    rw [putBytesLarge]
    split
    . exact ih
    . rfl

theorem placeVeneers_valid (h : s.branchDeadlines.Valid)
    : (s.placeVeneers cfg reservedBytes rounds).branchDeadlines.Valid := by
  induction rounds generalizing s with
  | zero => exact h
  | succ rounds ih =>
    rw [placeVeneers]
    split
    . split
      . exact h
      dsimp only
      split
      . rw [putBytes_branchDeadlines]
        exact removeDeadline_valid h
      apply ih
      rw [putBytes_branchDeadlines]
      exact removeDeadline_valid h
    . exact h

theorem finishPool_valid (h : s.branchDeadlines.Valid)
    : (s.finishPool cfg reservedBytes).branchDeadlines.Valid := by
  have hdump : (s.dumpPool cfg).branchDeadlines.Valid := by
    rw [dumpPool]
    simpa only [putBytesLarge_branchDeadlines, putBytes_branchDeadlines] using h
  have hveneers := @placeVeneers_valid cfg _ (max reservedBytes ShortRangeBranchHysteresis)
    (s.dumpPool cfg).branchDeadlines.size hdump
  rw [dumpPool] at hdump hveneers
  rw [finishPool]
  dsimp only at hdump hveneers ⊢
  split
  . exact h
  split
  . exact hdump
  split
  . exact hveneers
  split
  . exact hveneers
  . exact hveneers

variable {numInst : Nat} {data : List (BitVec 32)} {rounds : Nat}

theorem insertEntryForwards_valid {result : AssemblerBuffer × EntryIndex} (h : s.branchDeadlines.Valid)
    (hreturns : s.insertEntryForwards cfg numInst data rounds = some result)
    : result.1.branchDeadlines.Valid := by
  induction rounds generalizing s with
  | zero => exact nomatch hreturns
  | succ rounds ih =>
    have hlimiter : (s.updateLimiter data.length).branchDeadlines.Valid := by rwa [updateLimiter_branchDeadlines]
    rw [insertEntryForwards] at hreturns
    dsimp only at hreturns
    split at hreturns
    . split at hreturns
      . cases hreturns
        exact finishPool_valid hlimiter
      . exact ih (finishPool_valid hlimiter) hreturns
    split at hreturns
    . cases hreturns
      rw [insertEntry]
      dsimp only
      split <;> exact hlimiter
    . cases hreturns
      exact hlimiter

theorem allocEntry_valid (h : s.branchDeadlines.Valid) (hreturns : s.allocEntry cfg numInst data rounds = some s')
    : s'.branchDeadlines.Valid := by
  rw [allocEntry] at hreturns
  split at hreturns
  . cases hreturns
    exact h
  obtain ⟨result, hresult, hreturns⟩ := Option.bind_eq_some_iff.mp hreturns
  have hvalid := insertEntryForwards_valid h hresult
  dsimp only at hreturns
  split at hreturns
  . cases hreturns
    exact hvalid
  cases hreturns
  rw [putBytes_branchDeadlines]
  exact hvalid

theorem putInt_valid (h : s.branchDeadlines.Valid) (hreturns : s.putInt cfg rounds = some s')
    : s'.branchDeadlines.Valid := by
  rw [putInt] at hreturns
  split at hreturns
  . exact allocEntry_valid h hreturns
  cases hreturns
  rw [putBytes_branchDeadlines]
  exact h

theorem alignWith_valid (h : s.branchDeadlines.Valid) (hreturns : s.alignWith cfg alignment rounds fuel = some s')
    : s'.branchDeadlines.Valid := by
  induction fuel generalizing s with
  | zero => exact nomatch hreturns
  | succ fuel ih =>
    rw [alignWith] at hreturns
    split at hreturns
    . obtain ⟨t, ht, hreturns⟩ := Option.bind_eq_some_iff.mp hreturns
      exact ih (putInt_valid h ht) hreturns
    . cases hreturns
      exact h

theorem align_valid (h : s.branchDeadlines.Valid) (hreturns : s.align cfg alignment rounds fuel = some s')
    : s'.branchDeadlines.Valid := by
  rw [align] at hreturns
  dsimp only at hreturns
  split at hreturns
  . cases hreturns
    exact h
  refine alignWith_valid ?_ hreturns
  split
  . exact finishPool_valid h
  . exact h

end Valid

end SpiderMonkey.AssemblerBuffer
