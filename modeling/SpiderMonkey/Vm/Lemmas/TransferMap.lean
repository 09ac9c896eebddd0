import SpiderMonkey.Lib.Lists
import SpiderMonkey.Lib.Run
import SpiderMonkey.Vm.Impl.TransferMap

/-!
This module contains the verification of the transfer map: at every moment the contents of an array
buffer have one owner.
-/

namespace SpiderMonkey.CloneTransfer

open CloneTransfer
open List Option

structure SingleOwner (s : CloneTransfer) : Prop where
  ownerCount : ∀ c, s.ownerCount c = if c ∈ s.allocated then 1 else 0
  destroyed : s.phase = .destroyed → s.entries = []

def FailsUnstolen (s : CloneTransfer) (event : TransferEvent) : Prop :=
  match event with
  | .destroyWriter => ∀ entry ∈ s.entries, ownedContents entry = none
  | _ => True

def Unowned (entries : List TransferEntry) : Prop :=
  ∀ entry ∈ entries, ownedContents entry = none

theorem Unowned.filterMap {entries : List TransferEntry} (h : Unowned entries)
    : entries.filterMap ownedContents = [] :=
  filterMap_eq_nil_iff.mpr h

theorem Unowned.set {entries : List TransferEntry} (h : Unowned entries) (i : Nat)
    {entry : TransferEntry} (hentry : ownedContents entry = none)
    : Unowned (entries.set i entry) := by
  intro e he
  cases mem_or_eq_of_mem_set he with
  | inl hmem => exact h e hmem
  | inr heq =>
    rw [heq]
    exact hentry

theorem Unowned.pending (n : Nat) : Unowned (List.replicate n pendingEntry) := by
  intro e he
  rw [eq_of_mem_replicate he]
  rfl

def PhaseInv (s : CloneTransfer) : Prop :=
  match s.phase with
  | .initial => s.header = none ∧ s.entries = [] ∧ s.policy = .noTransferables
  | .writing => Unowned s.entries ∧ s.entries.length = s.sources.length
      ∧ (s.header ≠ some .unread → s.entries = []) ∧ s.policy = .noTransferables
      ∧ ∀ (j : Nat) e, s.entries[j]? = some e → e = pendingEntry
  | .transferring i => s.entries.length = s.sources.length
      ∧ (s.header ≠ some .unread → s.entries = []) ∧ s.policy = .noTransferables
      ∧ ∀ (j : Nat) e, i ≤ j → s.entries[j]? = some e → e = pendingEntry
  | .writeFailed => s.policy = .noTransferables
  | .written => s.policy = .ownsTransferablesIfAny
      ∧ (s.header ≠ some .unread → Unowned s.entries)
  | .reading i _ => s.policy = .ownsTransferablesIfAny ∧ s.header = some .unread
      ∧ ∀ (j : Nat) e, j < i → s.entries[j]? = some e → ownedContents e = none
  | .destroyed => s.entries = []

structure Inv (s : CloneTransfer) : Prop where
  ownerCount : ∀ c, s.ownerCount c = if c ∈ s.allocated then 1 else 0
  fresh : ∀ c ∈ s.allocated, c < s.nextContents
  scope : s.dataScope = .differentProcess → Unowned s.entries
  tags : ∀ entry ∈ s.entries, entry.tag ≠ .arrayBuffer → ownedContents entry = none
  phase : PhaseInv s

theorem Inv.singleOwner (h : Inv s) : SingleOwner s := by
  constructor
  . exact h.ownerCount
  intro hdestroyed
  have := h.phase
  unfold PhaseInv at this
  rw [hdestroyed] at this
  exact this

section OwnerCount

variable {s : CloneTransfer} {i c : Nat} {buffer buffer' : ArrayBufferObject}

theorem ownerCount_setSource (h : s.sources[i]? = some (.arrayBuffer buffer))
    : (s.setSource i buffer').ownerCount c + buffer.contents.owned.toList.count c
        = s.ownerCount c + buffer'.contents.owned.toList.count c := by
  have := Lists.count_filterMap_set (f := Transferable.owned) (y := .arrayBuffer buffer') h c
  simp only [Transferable.owned] at this
  simp only [ownerCount, setSource]
  omega

theorem ownerCount_release (contents : Option Nat)
    : (s.release contents).ownerCount c = s.ownerCount c + contents.toList.count c := by
  simp only [ownerCount, release, count_append]
  omega

theorem ownerCount_createObject (contents : Option Nat)
    : (s.createObject contents).ownerCount c = s.ownerCount c + contents.toList.count c := by
  simp only [ownerCount, createObject, count_append]
  omega

theorem ownerCount_writeEntry {entry entry' : TransferEntry} (h : s.entries[i]? = some entry)
    : (s.writeEntry i entry').ownerCount c + (ownedContents entry).toList.count c
        = s.ownerCount c + (ownedContents entry').toList.count c := by
  have := Lists.count_filterMap_set (f := ownedContents) (y := entry') h c
  simp only [ownerCount, writeEntry]
  omega

theorem ownerCount_detachSource (h : s.sources[i]? = some (.arrayBuffer buffer))
    : (s.detachSource i buffer).ownerCount c = s.ownerCount c := by
  unfold detachSource
  rw [ownerCount_release]
  have := @ownerCount_setSource s i c buffer buffer.detach h
  have hdetached : buffer.detach.contents.owned = none := rfl
  rw [hdetached, toList_none, count_nil] at this
  omega

theorem ownerCount_steal (hsource : s.sources[i]? = some (.arrayBuffer buffer))
    (hentry : s.entries[i]? = some pendingEntry) (entry : TransferEntry)
    (howned : ownedContents entry = buffer.contents.owned) (c : Nat)
    : ((s.setSource i buffer.detach).writeEntry i entry).ownerCount c = s.ownerCount c := by
  have hset := @ownerCount_setSource s i c buffer buffer.detach hsource
  have hwrite := @ownerCount_writeEntry (s.setSource i buffer.detach) i c pendingEntry entry hentry
  have hdetached : buffer.detach.contents.owned = none := rfl
  have hpending : ownedContents pendingEntry = none := rfl
  rw [hdetached] at hset
  rw [hpending, howned] at hwrite
  simp only [toList_none, count_nil] at hset hwrite
  omega

theorem ownerCount_fresh (h : ∀ c, s.ownerCount c = if c ∈ s.allocated then 1 else 0)
    (hfresh : ∀ c ∈ s.allocated, c < s.nextContents) (c : Nat)
    : s.ownerCount c + (some s.nextContents).toList.count c = if c ∈ s.allocate.allocated then 1 else 0 := by
  simp only [allocate, toList_some, mem_cons, h c]
  cases Decidable.em (c = s.nextContents) with
  | inl heq =>
    subst heq
    have hnot : s.nextContents ∉ s.allocated := fun hmem => Nat.lt_irrefl _ (hfresh _ hmem)
    simp only [hnot, if_false, or_false, if_true, count_singleton_self]
  | inr hne =>
    rw [count_eq_zero_of_not_mem]
    . simp only [hne, false_or, Nat.add_zero]
    . rw [mem_singleton]
      exact hne

theorem fresh_allocate (hfresh : ∀ c ∈ s.allocated, c < s.nextContents)
    : ∀ c ∈ s.allocate.allocated, c < s.allocate.nextContents := by
  intro c hc
  simp only [allocate] at hc ⊢
  cases mem_cons.mp hc with
  | inl heq =>
    rw [heq]
    exact Nat.lt_succ_self _
  | inr hmem => exact Nat.lt_succ_of_lt (hfresh c hmem)

end OwnerCount

structure Transferred (s t : CloneTransfer) (i : Nat) : Prop where
  header : t.header = s.header
  policy : t.policy = s.policy
  scope : t.scope = s.scope
  length : t.sources.length = s.sources.length
  entries : ∃ entry, t.entries = s.entries.set i entry
    ∧ (s.dataScope = .differentProcess → ownedContents entry = none)
    ∧ (entry.tag ≠ .arrayBuffer → ownedContents entry = none)
  ownerCount : ∀ c, t.ownerCount c = if c ∈ t.allocated then 1 else 0
  fresh : ∀ c ∈ t.allocated, c < t.nextContents

section TransferEntry

variable {s t : CloneTransfer} {i : Nat} {buffer : ArrayBufferObject}

theorem extractContents_transferred {outOfMemory : Bool}
    (hcount : ∀ c, s.ownerCount c = if c ∈ s.allocated then 1 else 0) (hfresh : ∀ c ∈ s.allocated, c < s.nextContents)
    (hsource : s.sources[i]? = some (.arrayBuffer buffer))
    (hentry : s.entries[i]? = some pendingEntry) (hscope : s.dataScope ≠ .differentProcess)
    (h : s.extractContents i buffer outOfMemory = some t)
    : Transferred s t i := by
  have hset (c : Nat) := @ownerCount_setSource s i c buffer buffer.detach hsource
  have hdetached : buffer.detach.contents.owned = none := rfl
  have hpending : ownedContents pendingEntry = none := rfl
  unfold extractContents at h
  split at h
  next hcontents =>
    split at h
    next => contradiction
    next =>
      cases h
      constructor
      . rfl
      . rfl
      . rfl
      . exact length_set
      . exact ⟨_, rfl, fun heq => absurd heq hscope, fun hne => absurd rfl hne⟩
      . intro c
        have hwrite := @ownerCount_writeEntry (s.setSource i buffer.detach).allocate i c pendingEntry
          ⟨.arrayBuffer, .allocData, some s.nextContents⟩ hentry
        have hnew := ownerCount_fresh hcount hfresh c
        have hsource := hset c
        rw [hdetached, hcontents] at hsource
        rw [hpending] at hwrite
        simp only [BufferContents.owned, toList_none, count_nil, Nat.add_zero] at hsource hwrite
        rw [hwrite]
        refine Eq.trans ?_ hnew
        exact congrArg (· + _) hsource
      . exact @fresh_allocate (s.setSource i buffer.detach) hfresh
  next contents hcontents =>
    cases h
    constructor
    . rfl
    . rfl
    . rfl
    . exact length_set
    . exact ⟨_, rfl, fun heq => absurd heq hscope, fun hne => absurd rfl hne⟩
    . intro c
      have hsteal := ownerCount_steal hsource hentry ⟨.arrayBuffer, .allocData, some contents⟩
        (by rw [hcontents]; rfl) c
      rw [hsteal, hcount c]
      rfl
    . exact hfresh
  next contents hcontents =>
    cases h
    constructor
    . rfl
    . rfl
    . rfl
    . exact length_set
    . exact ⟨_, rfl, fun heq => absurd heq hscope, fun hne => absurd rfl hne⟩
    . intro c
      have hsteal := ownerCount_steal hsource hentry ⟨.arrayBuffer, .mappedData, some contents⟩
        (by rw [hcontents]; rfl) c
      rw [hsteal, hcount c]
      rfl
    . exact hfresh
  next => contradiction

theorem storeContents_transferred {outOfMemory : Bool}
    (hcount : ∀ c, s.ownerCount c = if c ∈ s.allocated then 1 else 0) (hfresh : ∀ c ∈ s.allocated, c < s.nextContents)
    (hsource : s.sources[i]? = some (.arrayBuffer buffer)) (hentry : s.entries[i]? = some pendingEntry)
    (h : s.storeContents i buffer outOfMemory = some t)
    : Transferred s t i := by
  unfold storeContents at h
  split at h
  next => contradiction
  next =>
    cases h
    constructor
    . rfl
    . rfl
    . rfl
    . exact length_set
    . exact ⟨_, rfl, fun _ => rfl, fun _ => rfl⟩
    . intro c
      have hwrite := @ownerCount_writeEntry (s.detachSource i buffer) i c pendingEntry
        ⟨.storedArrayBuffer, .unowned, none⟩ hentry
      have hdetach := @ownerCount_detachSource s i c buffer hsource
      have hpending : ownedContents pendingEntry = none := rfl
      have hstored : ownedContents ⟨.storedArrayBuffer, .unowned, none⟩ = none := rfl
      rw [hpending, hstored, hdetach, hcount c] at hwrite
      simp only [toList_none, count_nil, Nat.add_zero] at hwrite
      exact hwrite
    . exact hfresh

theorem transferEntry_transferred (hcount : ∀ c, s.ownerCount c = if c ∈ s.allocated then 1 else 0)
    (hfresh : ∀ c ∈ s.allocated, c < s.nextContents)
    (hentry : s.entries[i]? = some pendingEntry) (h : s.transferEntry i errors = some t)
    : Transferred s t i := by
  unfold transferEntry at h
  split at h
  next => contradiction
  next =>
    split at h
    next buffer hsource =>
      unfold transferArrayBuffer at h
      split at h
      next => contradiction
      next =>
        split at h
        next => exact storeContents_transferred hcount hfresh hsource hentry h
        next hscope =>
          simp only [Bool.or_eq_true, decide_eq_true_eq, not_or] at hscope
          exact extractContents_transferred hcount hfresh hsource hentry hscope.1 h
    next =>
      split at h
      next => contradiction
      next =>
        cases h
        constructor
        . rfl
        . rfl
        . rfl
        . rfl
        . exact ⟨_, rfl, fun _ => rfl, fun _ => rfl⟩
        . intro c
          have hwrite := @ownerCount_writeEntry s i c pendingEntry ⟨.custom, .custom, none⟩ hentry
          have hpending : ownedContents pendingEntry = none := rfl
          have hcustom : ownedContents ⟨.custom, .custom, none⟩ = none := rfl
          rw [hpending, hcustom, hcount c] at hwrite
          simp only [toList_none, count_nil, Nat.add_zero] at hwrite
          exact hwrite
        . exact hfresh
    next => contradiction

end TransferEntry

-- What the reading of an entry does, when the mark of the entry is counted with it.
structure Handed (s t : CloneTransfer) (i : Nat) (entry : TransferEntry) : Prop where
  header : t.header = s.header
  policy : t.policy = s.policy
  scope : t.scope = s.scope
  entries : t.entries = s.entries
  ownerCount : ∀ c, (t.markUnowned i entry).ownerCount c = if c ∈ t.allocated then 1 else 0
  fresh : ∀ c ∈ t.allocated, c < t.nextContents

theorem readObject_handed {s t : CloneTransfer} {i : Nat} {entry : TransferEntry}
    (hcount : ∀ c, s.ownerCount c = if c ∈ s.allocated then 1 else 0) (hfresh : ∀ c ∈ s.allocated, c < s.nextContents)
    (hentry : s.entries[i]? = some entry) (htags : entry.tag ≠ .arrayBuffer → ownedContents entry = none)
    (h : s.readObject entry allowedScope errors = some t)
    : Handed s t i entry := by
  have hmark (u : CloneTransfer) (hu : u.entries = s.entries) (c : Nat)
      : (u.markUnowned i entry).ownerCount c + (ownedContents entry).toList.count c = u.ownerCount c := by
    have hwrite := @ownerCount_writeEntry u i c entry { entry with ownership := .unowned }
      (by rw [hu, hentry])
    have hunowned : ownedContents { entry with ownership := .unowned } = none := rfl
    rw [hunowned] at hwrite
    exact hwrite
  unfold readObject at h
  split at h
  next => contradiction
  next =>
    split at h
    next => contradiction
    next =>
      split at h
      next howned =>
        split at h
        next => contradiction
        next =>
          cases h
          refine ⟨rfl, rfl, rfl, rfl, ?_, hfresh⟩
          intro c
          have hobject := @ownerCount_createObject s c entry.content
          have hread := hmark (s.createObject entry.content) rfl c
          have hcontents : ownedContents entry = entry.content := by
            unfold ownedContents
            simp only [Bool.or_eq_true, decide_eq_true_eq] at howned
            cases howned with
            | inl heq => rw [heq, TransferableOwnership.isOwned, if_pos rfl]
            | inr heq => rw [heq, TransferableOwnership.isOwned, if_pos rfl]
          rw [hcontents, hobject] at hread
          rw [Nat.add_right_cancel hread, hcount c]
          rfl
      next => contradiction
  next htag =>
    split at h
    next => contradiction
    next =>
      cases h
      refine ⟨rfl, rfl, rfl, rfl, ?_, fresh_allocate hfresh⟩
      intro c
      have hobject := @ownerCount_createObject s.allocate c (some s.nextContents)
      have hread := hmark (s.allocate.createObject (some s.nextContents)) rfl c
      rw [htags (by rw [htag]; exact nofun), toList_none, count_nil, Nat.add_zero, hobject] at hread
      rw [hread]
      exact ownerCount_fresh hcount hfresh c
  next htag =>
    split at h
    next => contradiction
    next =>
      cases h
      refine ⟨rfl, rfl, rfl, rfl, ?_, hfresh⟩
      intro c
      have hread := hmark s rfl c
      rw [htags (by rw [htag]; exact nofun), toList_none, count_nil, Nat.add_zero] at hread
      exact hread.trans (hcount c)

namespace Inv

variable {s : CloneTransfer}

theorem init {sources : List Transferable} {scope : StructuredCloneScope} {allocated : List Nat}
    {nextContents : Nat} (hnodup : (sources.filterMap Transferable.owned).Nodup)
    (hallocated : ∀ c, c ∈ allocated ↔ c ∈ sources.filterMap Transferable.owned)
    (hfresh : ∀ c ∈ allocated, c < nextContents)
    : Inv (CloneTransfer.init sources scope allocated nextContents) := by
  constructor
  . intro c
    simp only [CloneTransfer.ownerCount, CloneTransfer.init, filterMap_nil, count_nil, Nat.add_zero]
    rw [hnodup.count]
    exact if_congr (hallocated c).symm rfl rfl
  . exact hfresh
  . intro _ entry hentry
    exact absurd hentry not_mem_nil
  . intro entry hentry
    exact absurd hentry not_mem_nil
  . exact ⟨rfl, rfl, rfl⟩

theorem of_phase (h : Inv s) {phase : TransferPhase} (hphase : PhaseInv { s with phase := phase })
    : Inv { s with phase := phase } where
  ownerCount := h.ownerCount
  fresh := h.fresh
  scope := h.scope
  tags := h.tags
  phase := hphase

theorem phase_of (h : Inv s) {phase : TransferPhase} (heq : s.phase = phase)
    : PhaseInv { s with phase := phase } := by
  have := h.phase
  rw [← heq]
  exact this

theorem writeTransferMap (h : Inv s) (hphase : s.phase = .initial) (failsAfter : Option Nat)
    : Inv (s.writeTransferMap failsAfter) := by
  obtain ⟨hheader, hentries, hpolicy⟩ := h.phase_of hphase
  dsimp only at hheader hentries hpolicy
  have hnone (n : Nat) : ((List.replicate n pendingEntry).filterMap ownedContents) = [] :=
    (Unowned.pending n).filterMap
  unfold CloneTransfer.writeTransferMap
  split
  next written =>
    constructor
    . intro c
      rw [← h.ownerCount c]
      simp only [CloneTransfer.ownerCount, hnone, hentries, filterMap_nil]
    . exact h.fresh
    . exact fun _ => Unowned.pending _
    . exact fun e he _ => Unowned.pending _ e he
    . exact hpolicy
  next =>
    split
    next hempty =>
      apply h.of_phase
      have hsources : s.sources = [] := List.isEmpty_iff.mp hempty
      refine ⟨?_, ?_, fun _ => hentries, hpolicy, ?_⟩
      . rw [hentries]
        exact Unowned.pending 0
      . rw [hentries, hsources]
        rfl
      . intro j e he
        rw [hentries] at he
        contradiction
    next =>
      constructor
      . intro c
        rw [← h.ownerCount c]
        simp only [CloneTransfer.ownerCount, hnone, hentries, filterMap_nil]
      . exact h.fresh
      . exact fun _ => Unowned.pending _
      . exact fun e he _ => Unowned.pending _ e he
      . refine ⟨Unowned.pending _, length_replicate, fun hne => absurd rfl hne, hpolicy, ?_⟩
        intro j e he
        exact eq_of_mem_replicate (mem_of_getElem? he)

theorem scriptDetaches (h : Inv s) (hphase : s.phase = .writing) (object : Nat)
    : Inv (s.scriptDetaches object) := by
  have hwriting := h.phase_of hphase
  unfold CloneTransfer.scriptDetaches
  split
  next buffer hsource =>
    constructor
    . intro c
      rw [ownerCount_detachSource hsource]
      exact h.ownerCount c
    . exact h.fresh
    . exact h.scope
    . exact h.tags
    obtain ⟨hunowned, hlength, hrest⟩ := hwriting
    unfold PhaseInv
    have hphase' : (s.detachSource object buffer).phase = .writing := hphase
    rw [hphase']
    refine ⟨hunowned, ?_, hrest⟩
    simp only [detachSource, release, setSource, length_set]
    exact hlength
  next => exact h

theorem scriptPreparesForAsmJS (h : Inv s) (hphase : s.phase = .writing) (object : Nat)
    : Inv (s.scriptPreparesForAsmJS object) := by
  have hwriting := h.phase_of hphase
  unfold CloneTransfer.scriptPreparesForAsmJS
  split
  next buffer hsource =>
    constructor
    . intro c
      have hset := @ownerCount_setSource s object c buffer
        { buffer with isPreparedForAsmJS := true } hsource
      rw [Nat.add_right_cancel hset]
      exact h.ownerCount c
    . exact h.fresh
    . exact h.scope
    . exact h.tags
    obtain ⟨hunowned, hlength, hrest⟩ := hwriting
    unfold PhaseInv
    have hphase' : (s.setSource object { buffer with isPreparedForAsmJS := true }).phase = .writing := hphase
    rw [hphase']
    refine ⟨hunowned, ?_, hrest⟩
    simp only [setSource, length_set]
    exact hlength
  next => exact h

theorem sameProcessScopeRequired (h : Inv s) (hphase : s.phase = .writing)
    : Inv s.sameProcessScopeRequired := by
  have hwriting := h.phase_of hphase
  unfold CloneTransfer.sameProcessScopeRequired
  split
  next =>
    constructor
    . exact h.ownerCount
    . exact h.fresh
    . exact fun _ => hwriting.1
    . exact h.tags
    . have := h.phase
      exact this
  next => exact h

theorem transferNext (h : Inv s) {i : Nat} (hphase : s.phase = .transferring i) (errors : TransferErrors)
    : Inv (s.transferNext i errors) := by
  obtain ⟨hlength, hheader, hpolicy, hpending⟩ := h.phase_of hphase
  dsimp only at hlength hheader hpolicy hpending
  unfold CloneTransfer.transferNext
  split
  next hlt =>
    have hentry : s.entries[i]? = some pendingEntry := by
      have hbound : i < s.entries.length := by omega
      have hget := List.getElem?_eq_getElem hbound
      rw [hget, hpending i _ (Nat.le_refl i) hget]
    split
    next t ht =>
      have htransferred := transferEntry_transferred h.ownerCount h.fresh hentry ht
      obtain ⟨entry, hentries, hscope, htag⟩ := htransferred.entries
      constructor
      . exact htransferred.ownerCount
      . exact htransferred.fresh
      . intro hdifferent
        have hsame : s.dataScope = .differentProcess := by
          rw [← hdifferent]
          simp only [dataScope, htransferred.scope]
        dsimp only
        rw [hentries]
        exact (h.scope hsame).set i (hscope hsame)
      . intro e he hne
        dsimp only at he
        rw [hentries] at he
        cases mem_or_eq_of_mem_set he with
        | inl hmem => exact h.tags e hmem hne
        | inr heq =>
          subst heq
          exact htag hne
      . refine ⟨?_, ?_, ?_, ?_⟩
        . dsimp only
          rw [hentries, length_set, htransferred.length]
          exact hlength
        . intro hne
          dsimp only at hne ⊢
          rw [htransferred.header] at hne
          rw [hentries, hheader hne]
          rfl
        . exact htransferred.policy.trans hpolicy
        . intro j e hj he
          dsimp only at he
          rw [hentries, List.getElem?_set_ne (by omega)] at he
          exact hpending j e (by omega) he
    next =>
      exact h.of_phase hpolicy
  next hge =>
    constructor
    . exact h.ownerCount
    . exact h.fresh
    . exact h.scope
    . exact h.tags
    refine ⟨rfl, ?_⟩
    intro hne
    dsimp only at hne ⊢
    rw [hheader hne]
    exact Unowned.pending 0

theorem startRead (h : Inv s) (hphase : s.phase = .written) (allowedScope : StructuredCloneScope)
    : Inv (s.startRead allowedScope) := by
  obtain ⟨hpolicy, _⟩ := h.phase_of hphase
  unfold CloneTransfer.startRead
  split
  next hheader => exact h.of_phase ⟨hpolicy, hheader, fun _ _ hj => absurd hj (Nat.not_lt_zero _)⟩
  next => exact h

theorem readNext (h : Inv s) {i : Nat}
    (hphase : s.phase = .reading i allowedScope) (errors : ReadErrors)
    : Inv (s.readNext i allowedScope errors) := by
  obtain ⟨hpolicy, hheader, hread⟩ := h.phase_of hphase
  dsimp only at hpolicy hheader hread
  have hstop : Inv { s with phase := .written } := h.of_phase ⟨hpolicy, fun hne => absurd hheader hne⟩
  unfold CloneTransfer.readNext
  split
  next entry hentry =>
    split
    next => exact hstop
    next =>
      split
      next => exact hstop
      next t ht =>
        have hobject := readObject_handed h.ownerCount h.fresh hentry
          (h.tags entry (mem_of_getElem? hentry)) ht
        have hunowned : ownedContents { entry with ownership := .unowned } = none := rfl
        have hmark (phase : TransferPhase) (hinv : PhaseInv { t.markUnowned i entry with phase := phase })
            : Inv { t.markUnowned i entry with phase := phase } := by
          constructor
          . exact hobject.ownerCount
          . exact hobject.fresh
          . intro hdifferent
            have hsame : s.dataScope = .differentProcess := by
              rw [← hdifferent]
              simp only [dataScope, markUnowned, writeEntry, hobject.scope]
            simp only [markUnowned, writeEntry, hobject.entries]
            exact (h.scope hsame).set i hunowned
          . intro e he hne
            simp only [markUnowned, writeEntry, hobject.entries] at he
            cases mem_or_eq_of_mem_set he with
            | inl hmem => exact h.tags e hmem hne
            | inr heq =>
              subst heq
              exact hunowned
          . exact hinv
        split
        next =>
          apply hmark
          refine ⟨hobject.policy.trans hpolicy, fun hne => ?_⟩
          exact absurd (hobject.header.trans hheader) hne
        next =>
          apply hmark
          refine ⟨hobject.policy.trans hpolicy, hobject.header.trans hheader, ?_⟩
          intro j e hj he
          simp only [markUnowned, writeEntry, hobject.entries] at he
          cases Decidable.em (i = j) with
          | inl heq =>
            rw [List.getElem?_set, if_pos heq] at he
            split at he
            next =>
              cases he
              exact hunowned
            next => contradiction
          | inr hne =>
            rw [List.getElem?_set_ne hne] at he
            exact hread j e (by omega) he
  next hnone =>
    constructor
    . exact h.ownerCount
    . exact h.fresh
    . exact h.scope
    . exact h.tags
    refine ⟨hpolicy, fun _ => ?_⟩
    intro e he
    obtain ⟨j, hj, rfl⟩ := getElem_of_mem he
    have hlength := List.getElem?_eq_none_iff.mp hnone
    dsimp only at hj
    exact hread j _ (by omega) (List.getElem?_eq_getElem hj)

theorem clear (h : Inv s) (hunowned : Unowned s.entries) : Inv s.clear := by
  constructor
  . intro c
    have hcount := h.ownerCount c
    unfold CloneTransfer.ownerCount at hcount
    rw [hunowned.filterMap] at hcount
    exact hcount
  . exact h.fresh
  . intro _ e he
    exact absurd he not_mem_nil
  . intro e he
    exact absurd he not_mem_nil
  . rfl

theorem discard_clear (h : Inv s)
    : Inv { s with released := s.entries.filterMap ownedContents ++ s.released }.clear := by
  constructor
  . intro c
    refine Eq.trans ?_ (h.ownerCount c)
    simp only [CloneTransfer.ownerCount, CloneTransfer.clear, filterMap_nil, count_nil, count_append]
    omega
  . exact h.fresh
  . intro _ e he
    exact absurd he not_mem_nil
  . intro e he
    exact absurd he not_mem_nil
  . rfl

theorem destroyWriter (h : Inv s) (hphase : s.phase = .writeFailed) (hunowned : Unowned s.entries)
    : Inv s.destroy := by
  have hpolicy : s.policy = .noTransferables := h.phase_of hphase
  unfold destroy discardTransferables
  rw [hpolicy, if_pos nofun]
  exact h.clear hunowned

theorem destroyBuffer (h : Inv s) (hphase : s.phase = .written) : Inv s.destroy := by
  obtain ⟨hpolicy, hheader⟩ := h.phase_of hphase
  unfold destroy discardTransferables
  split
  next hne => exact absurd hpolicy hne
  next =>
    split
    next hscope => exact h.clear (h.scope hscope)
    next =>
      split
      next hread => exact h.clear (hheader hread)
      next => exact h.discard_clear

theorem step (h : Inv s) (hfails : FailsUnstolen s event) (hstep : s.step event = some s')
    : Inv s' := by
  unfold CloneTransfer.step at hstep
  split at hstep
  next hphase =>
    cases hstep
    exact h.writeTransferMap hphase _
  next hphase =>
    cases hstep
    exact h.scriptDetaches hphase _
  next hphase =>
    cases hstep
    exact h.scriptPreparesForAsmJS hphase _
  next hphase =>
    cases hstep
    exact h.sameProcessScopeRequired hphase
  next hphase =>
    cases hstep
    obtain ⟨_, _, _, hpolicy, _⟩ := h.phase_of hphase
    exact h.of_phase hpolicy
  next hphase =>
    cases hstep
    obtain ⟨_, hlength, hheader, hpolicy, hpending⟩ := h.phase_of hphase
    exact h.of_phase ⟨hlength, hheader, hpolicy, fun j e _ he => hpending j e he⟩
  next hphase =>
    cases hstep
    exact h.transferNext hphase _
  next hphase =>
    cases hstep
    exact h.destroyWriter hphase hfails
  next hphase =>
    cases hstep
    exact h.startRead hphase _
  next hphase =>
    cases hstep
    exact h.readNext hphase _
  next hphase =>
    cases hstep
    exact h.destroyBuffer hphase
  next => contradiction

end Inv

theorem ownerCount_pos_of_entry {s : CloneTransfer} {entry : TransferEntry}
    (hmem : entry ∈ s.entries) (hcontents : ownedContents entry = some c)
    : 0 < (s.entries.filterMap ownedContents).count c :=
  count_pos_iff.mpr (mem_filterMap.mpr ⟨entry, hmem, hcontents⟩)

-- The policy of the buffer of a writer keeps its destructor from releasing anything, so that the
-- contents have no owner any more.
theorem not_singleOwner_of_not_failsUnstolen
    (h : Inv s) (hfails : ¬ FailsUnstolen s event) (hstep : s.step event = some s')
    : ¬ SingleOwner s' := by
  unfold FailsUnstolen at hfails
  split at hfails
  next =>
    unfold step at hstep
    split at hstep <;> try contradiction
    next hphase hevent =>
      cases hstep
      have hpolicy : s.policy = .noTransferables := h.phase_of hphase
      simp only [Classical.not_forall] at hfails
      obtain ⟨entry, hmem, hne⟩ := hfails
      obtain ⟨c, hcontents⟩ := ne_none_iff_exists'.mp hne
      have hpos := ownerCount_pos_of_entry hmem hcontents
      have hcount := h.ownerCount c
      unfold ownerCount at hcount
      intro hsingle
      have hclear : s.destroy = s.clear := by
        unfold destroy discardTransferables
        rw [hpolicy, if_pos nofun]
      rw [hclear] at hsingle
      have hafter : s.clear.ownerCount c = if c ∈ s.allocated then 1 else 0 :=
        hsingle.ownerCount c
      simp only [ownerCount, clear, filterMap_nil, count_nil] at hafter
      split at hcount
      next hmem =>
        rw [if_pos hmem] at hafter
        omega
      next => omega
  next => exact absurd trivial hfails

theorem run_singleOwner_iff {sources : List Transferable} {scope : StructuredCloneScope}
    {allocated : List Nat} {nextContents : Nat}
    (hnodup : (sources.filterMap Transferable.owned).Nodup)
    (hallocated : ∀ c, c ∈ allocated ↔ c ∈ sources.filterMap Transferable.owned)
    (hfresh : ∀ c ∈ allocated, c < nextContents) {events : List TransferEvent} {s : CloneTransfer}
    (hrun : run (init sources scope allocated nextContents) events = some s)
    : (∀ done t, done <+: events → run (init sources scope allocated nextContents) done = some t → SingleOwner t)
        ↔ (∀ done event t, done ++ [event] <+: events →
          run (init sources scope allocated nextContents) done = some t → FailsUnstolen t event) :=
  Run.foldlM_good_iff (fun _ h => h.singleOwner) (fun _ _ _ h hfails hstep => h.step hfails hstep)
    (fun _ _ _ h hfails hstep => not_singleOwner_of_not_failsUnstolen h hfails hstep)
    (Inv.init hnodup hallocated hfresh) hrun

def detachedSecond : List Transferable :=
  [.arrayBuffer ⟨.malloced 0, false, false⟩, .arrayBuffer ⟨.malloced 1, false, false⟩]

def stolenFirst : List TransferEvent :=
  [.writeTransferMap none, .scriptDetaches 1, .writingDone, .transferEntry ⟨false, false, false⟩,
    .transferEntry ⟨false, false, false⟩, .destroyWriter]

theorem run_singleOwner_iff_stolenFirst
    : ∃ s, run (init detachedSecond .sameProcess [0, 1] 2) stolenFirst = some s ∧ ((∀ done t, done <+: stolenFirst →
            run (init detachedSecond .sameProcess [0, 1] 2) done = some t → SingleOwner t)
          ↔ (∀ done event t, done ++ [event] <+: stolenFirst →
            run (init detachedSecond .sameProcess [0, 1] 2) done = some t → FailsUnstolen t event)) :=
  ⟨_, rfl, run_singleOwner_iff (by decide) (fun _ => Iff.rfl) (by decide) rfl⟩

theorem stolenFirst_leaks
    : ∃ s, run (init detachedSecond .sameProcess [0, 1] 2) stolenFirst = some s
        ∧ s.phase = .destroyed ∧ 0 ∈ s.allocated ∧ s.ownerCount 0 = 0 ∧ ¬ SingleOwner s := by
  refine ⟨_, rfl, rfl, by decide, by decide, ?_⟩
  intro h
  exact absurd (h.ownerCount 0) (by decide)

end SpiderMonkey.CloneTransfer
