import SpiderMonkey.Lib.Run
import SpiderMonkey.Jit.Lemmas.AssemblerBuffer

/-!
This module contains when the insertion of code into an assembler buffer comes to an end: in every state of every
run, when there is space, or when the spill makes it.
-/

namespace SpiderMonkey.AssemblerBuffer

open BranchDeadlineSet

inductive Call where
  | allocEntry (numInst : Nat) (data : List (BitVec 32)) (rounds : Nat)
  | putInt (rounds : Nat)
  | nextInstrOffset
  | registerBranchDeadline (rangeIdx deadline : Nat)
  | unregisterBranchDeadline (rangeIdx deadline : Nat)
  | flushPool
  | enterNoPool (maxInst : Nat)
  | leaveNoPool
  | align (alignment rounds fuel : Nat)

section

variable (cfg : AssemblerBufferConfig)

def step (s : AssemblerBuffer) : Call → Option AssemblerBuffer
  | .allocEntry numInst data rounds => s.allocEntry cfg numInst data rounds
  | .putInt rounds => s.putInt cfg rounds
  | .nextInstrOffset => some (s.nextInstrOffset cfg)
  | .registerBranchDeadline rangeIdx deadline =>
    if rangeIdx < s.branchDeadlines.vectors.length then some (s.registerBranchDeadline cfg rangeIdx deadline) else none
  | .unregisterBranchDeadline rangeIdx deadline => some (s.unregisterBranchDeadline rangeIdx deadline)
  | .flushPool => some (s.flushPool cfg)
  | .enterNoPool maxInst => s.enterNoPool cfg maxInst
  | .leaveNoPool => some s.leaveNoPool
  | .align alignment rounds fuel => s.align cfg alignment rounds fuel

end

variable {cfg : AssemblerBufferConfig} {s : AssemblerBuffer} {numInst numPoolEntries : Nat}

theorem step_valid {call : Call} {s' : AssemblerBuffer} (h : s.branchDeadlines.Valid) (hstep : step cfg s call = some s')
    : s'.branchDeadlines.Valid := by
  cases call with
  | allocEntry numInst data rounds => exact allocEntry_valid h hstep
  | putInt rounds => exact putInt_valid h hstep
  | nextInstrOffset =>
    cases hstep
    rw [nextInstrOffset]
    split
    . exact finishPool_valid h
    . exact h
  | registerBranchDeadline rangeIdx deadline =>
    rw [step] at hstep
    split at hstep
    next hrange =>
      cases hstep
      rw [registerBranchDeadline]
      split
      . exact h
      split
      . exact addDeadline_valid h hrange
      . exact h
    . exact nomatch hstep
  | unregisterBranchDeadline rangeIdx deadline =>
    cases hstep
    rw [unregisterBranchDeadline]
    split
    . exact h
    . exact removeDeadline_valid h
  | flushPool =>
    cases hstep
    rw [flushPool]
    split
    . exact h
    . exact finishPool_valid h
  | enterNoPool maxInst =>
    rw [step, enterNoPool] at hstep
    split at hstep
    . cases hstep
      exact h
    split at hstep
    . dsimp only at hstep
      split at hstep
      . cases hstep
        exact finishPool_valid h
      . exact nomatch hstep
    . cases hstep
      exact h
  | leaveNoPool =>
    cases hstep
    exact h
  | align alignment rounds fuel => exact align_valid h hstep

theorem run_valid {numShortBranchRanges : Nat} {calls : List Call}
    (hrun : calls.foldlM (step cfg) (init numShortBranchRanges) = some s)
    : s.branchDeadlines.Valid := by
  refine @Run.foldlM_inv _ _ _ (fun _ s => s.branchDeadlines.Valid) ?_ calls [] _ _ init_valid hrun
  intro _ _ _ _ h hstep
  exact step_valid h hstep

def Clear (cfg : AssemblerBufferConfig) (numInst numPoolEntries : Nat) (s : AssemblerBuffer) : Prop :=
  s.oom = true ∨ (s.updateLimiter numPoolEntries).hasSpaceForInsts cfg numInst numPoolEntries = true
    ∨ SpillSuffices cfg numInst numPoolEntries s

def Terminates (cfg : AssemblerBufferConfig) (numInst : Nat) (data : List (BitVec 32)) (s : AssemblerBuffer) : Prop :=
  ∃ rounds result, s.insertEntryForwards cfg numInst data rounds = some result

def MakesSpace (cfg : AssemblerBufferConfig) (numInst numPoolEntries : Nat) (s : AssemblerBuffer) : Prop :=
  ¬(s.updateLimiter numPoolEntries).hasSpaceForInsts cfg numInst numPoolEntries = true
    → ((s.updateLimiter numPoolEntries).finishPool cfg (numInst * cfg.instSize)).oom = true
      ∨ (((s.updateLimiter numPoolEntries).finishPool cfg (numInst * cfg.instSize)).updateLimiter
          numPoolEntries).hasSpaceForInsts cfg numInst numPoolEntries = true

def EntersNoPool (cfg : AssemblerBufferConfig) (maxInst : Nat) (s : AssemblerBuffer) : Prop :=
  ∃ s', s.enterNoPool cfg maxInst = some s'

-- The memory for a pool, for the veneers that are due and for the record of the pool is granted.
def MemoryGranted (cfg : AssemblerBufferConfig) (numInst : Nat) (s : AssemblerBuffer) : Prop :=
  ∀ k, DueVeneers cfg (s.poolEnd cfg) (max (numInst * cfg.instSize) ShortRangeBranchHysteresis) s.branchDeadlines k
    → Granted cfg s k

theorem makesSpace_iff (h : s.branchDeadlines.Valid) (hfits : Fits cfg numInst numPoolEntries)
    : MakesSpace cfg numInst numPoolEntries s ↔ Clear cfg numInst numPoolEntries s := by
  cases hoom : s.oom with
  | true =>
    refine iff_of_true (fun _ => Or.inl (finishPool_oom_of_oom ?_)) (Or.inl hoom)
    rw [updateLimiter_oom, hoom]
  | false =>
    by_cases hspace : (s.updateLimiter numPoolEntries).hasSpaceForInsts cfg numInst numPoolEntries = true
    . exact iff_of_true (fun hnone => absurd hspace hnone) (Or.inr (Or.inl hspace))
    . rw [MakesSpace, imp_iff_right hspace, finishPool_makes_space_iff h hoom hfits hspace, Clear, hoom]
      simp [hspace]

theorem terminates_iff_makesSpace {data : List (BitVec 32)} (h : s.branchDeadlines.Valid)
    : Terminates cfg numInst data s ↔ MakesSpace cfg numInst data.length s := by
  by_cases hspace : (s.updateLimiter data.length).hasSpaceForInsts cfg numInst data.length = true
  . exact iff_of_true ⟨1, insertEntryForwards_of_space 0 hspace⟩ fun hnone => absurd hspace hnone
  . rw [MakesSpace, imp_iff_right hspace]
    exact insertEntryForwards_returns_iff h hspace

theorem entersNoPool_iff
    : EntersNoPool cfg numInst s ↔ s.oom = true ∨ s.hasSpaceForInsts cfg numInst 0 = true
      ∨ (s.finishPool cfg (numInst * cfg.instSize)).hasSpaceForInsts cfg numInst 0 = true := by
  rw [EntersNoPool, enterNoPool]
  cases hoom : s.oom with
  | true => simp
  | false =>
    cases hspace : s.hasSpaceForInsts cfg numInst 0 <;>
      cases hmade : (s.finishPool cfg (numInst * cfg.instSize)).hasSpaceForInsts cfg numInst 0 <;> simp [hmade]

theorem makesSpace_of_entersNoPool (h : EntersNoPool cfg numInst s) : MakesSpace cfg numInst 0 s := by
  rcases entersNoPool_iff.mp h with hoom | hspace | hmade
  . exact fun _ => Or.inl (finishPool_oom_of_oom hoom)
  . exact fun hnone => absurd hspace hnone
  . exact fun _ => Or.inr hmade

theorem entersNoPool_of_makesSpace (hvalid : s.branchDeadlines.Valid) (hgranted : MemoryGranted cfg numInst s)
    (h : MakesSpace cfg numInst 0 s) : EntersNoPool cfg numInst s := by
  rw [entersNoPool_iff]
  cases hoom : s.oom with
  | true => exact Or.inl rfl
  | false =>
    by_cases hspace : s.hasSpaceForInsts cfg numInst 0 = true
    . exact Or.inr (Or.inl hspace)
    rcases h hspace with hfails | hmade
    . by_cases hempty : s.isPoolEmptyFor (max (numInst * cfg.instSize) ShortRangeBranchHysteresis) = true
      . have hsame : (s.finishPool cfg (numInst * cfg.instSize)).oom = true := hfails
        rw [finishPool_of_empty hempty, hoom] at hsame
        cases hsame
      . obtain ⟨k, hdue⟩ := @exists_dueVeneers cfg (max (numInst * cfg.instSize) ShortRangeBranchHysteresis)
          (s.poolEnd cfg) s.branchDeadlines
        have hdone := (finishPool_oom_iff hvalid hoom hempty hdue).mpr (hgranted k hdue)
        cases hdone.symm.trans hfails
    . exact Or.inr (Or.inr hmade)

theorem hasSpaceForInsts_finishPool_of_refused (hrefused : ∀ size numBytes, cfg.ensureSpace size numBytes = false)
    : (s.finishPool cfg reservedBytes).hasSpaceForInsts cfg numInst numPoolEntries
      = s.hasSpaceForInsts cfg numInst numPoolEntries := by
  have hputBytes (numBytes : Nat) (s : AssemblerBuffer) : s.putBytes cfg numBytes = { s with oom := true } := by
    rw [putBytes, hrefused]
    rfl
  have hlarge (numBytes : Nat) (s : AssemblerBuffer) (hoom : s.oom = true) : s.putBytesLarge cfg numBytes = s := by
    cases numBytes with
    | zero => rfl
    | succ numBytes =>
      rw [putBytesLarge, hrefused, if_neg (by decide), ← hoom]
  rw [finishPool]
  split
  . rfl
  . dsimp only
    rw [hputBytes, hputBytes, hlarge _ _ rfl]
    rfl

def smallPool : AssemblerBufferConfig where
  instSize := 4
  guardSize := 1
  headerSize := 1
  poolMaxOffset := 1024
  pcBias := 0
  ensureSpace _ _ := true
  append _ := true

end SpiderMonkey.AssemblerBuffer
