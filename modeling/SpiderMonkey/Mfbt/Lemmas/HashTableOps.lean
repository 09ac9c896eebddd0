import SpiderMonkey.Mfbt.Lemmas.HashTable

/-!
This module contains the verification of the operations of the hash table on its counts and entries.
-/

namespace SpiderMonkey

open List EntrySlot
open OpenAddressing

namespace HashTable

variable {T Key Lookup : Type} {t : HashTable T}

def entryAt (slots : List (EntrySlot T)) (i : Nat) : Option T := slots[i]?.bind mEntry

structure Inserted (t t' : HashTable T) (x : HashNumber × T) : Prop where
  counted : Counted t'
  entries : (hashedEntries t'.slots).Perm (x :: hashedEntries t.slots)
  mEntryCount : t'.mEntryCount = t.mEntryCount + 1
  mRemovedCount : t'.mRemovedCount ≤ t.mRemovedCount
  mGen : t'.mGen = t.mGen
  mMutationCount : t'.mMutationCount = t.mMutationCount + 1
  capacity : t'.capacity = t.capacity
  isSome : t'.mTable.isSome
  slots : ∃ i, entryAt t'.slots i = some x.2 ∧ entryAt t.slots i = none
    ∧ ∀ j, j ≠ i → entryAt t'.slots j = entryAt t.slots j

theorem Counted.isCapacity (h : Counted t) : IsCapacity t.rawCapacity := ⟨t.mHashShift, h.shift, rfl⟩

theorem capacity_le (t : HashTable T) : t.capacity ≤ t.rawCapacity := by
  unfold capacity
  split
  next => exact Nat.le_refl _
  next => exact Nat.zero_le _

theorem IsCapacity.four_dvd {n : Nat} (h : IsCapacity n) : 4 ∣ n := by
  obtain ⟨shift, hshift, rfl⟩ := h
  unfold ShiftInRange at hshift
  unfold kHashNumberBits
  exact Nat.pow_dvd_pow 2 (show 2 ≤ 32 - shift by omega)

theorem IsCapacity.pos {n : Nat} (h : IsCapacity n) : 0 < n := by
  obtain ⟨shift, -, rfl⟩ := h
  exact Nat.two_pow_pos _

theorem IsCapacity.double {n : Nat} (h : IsCapacity n) (hmax : n * 2 ≤ sMaxCapacity) : IsCapacity (n * 2) := by
  obtain ⟨shift, hshift, rfl⟩ := h
  rw [← Nat.pow_succ] at hmax ⊢
  apply isCapacity_two_pow _ hmax
  unfold ShiftInRange at hshift
  unfold kHashNumberBits
  omega

theorem Counted.four_dvd_capacity (h : Counted t) : 4 ∣ t.capacity := by
  unfold capacity
  split
  next => exact h.isCapacity.four_dvd
  next => exact Nat.dvd_zero 4

def OutOfMemory (t : HashTable T) (mem : List Bool) : Prop :=
  mem.head?.getD false = false ∨ sMaxCapacity < t.rawCapacity * 2

theorem rehashIfOverloaded_spec (h : Counted t) (mem : List Bool)
    : (t.rehashIfOverloaded mem = some (.NotOverloaded, t) ∧ 4 * (t.mEntryCount + t.mRemovedCount) < 3 * t.capacity)
      ∨ (∃ t', t.rehashIfOverloaded mem = some (.Rehashed, t') ∧ Rebuilt t t' ∧ t'.mTable.isSome
        ∧ (Loaded t → 4 * (t.mEntryCount + 1) ≤ 3 * t'.capacity))
      ∨ (t.rehashIfOverloaded mem = some (.RehashFailed, t) ∧ OutOfMemory t mem) := by
  obtain ⟨quarter, hquarter⟩ := h.four_dvd_capacity
  have hcap := h.isCapacity
  obtain ⟨rawQuarter, hrawQuarter⟩ := hcap.four_dvd
  have hpos := hcap.pos
  have hle := t.capacity_le
  have hload := h.entryLoad
  unfold rehashIfOverloaded overloaded sMaxAlphaNumerator sAlphaDenominator
  by_cases hover : t.mEntryCount + t.mRemovedCount ≥ t.capacity * 3 / 4
  . right
    rw [if_neg (by simpa using hover)]
    simp only []
    by_cases hmany : t.mRemovedCount ≥ t.capacity / 4
    . rw [if_pos hmany]
      rcases changeTableSize_spec h hcap (by omega) mem with ⟨t', ht', hrebuilt, hsome, hcap'⟩ | ⟨ht', hmem⟩
      . refine .inl ⟨t', ht', hrebuilt, hsome, fun hloaded => ?_⟩
        unfold Loaded at hloaded
        omega
      . exact .inr ⟨ht', .inl hmem⟩
    rw [if_neg hmany]
    by_cases hmax : t.rawCapacity * 2 ≤ sMaxCapacity
    . rcases changeTableSize_spec h (hcap.double hmax) (by omega) mem with
        ⟨t', ht', hrebuilt, hsome, hcap'⟩ | ⟨ht', hmem⟩
      . exact .inl ⟨t', ht', hrebuilt, hsome, fun _ => by omega⟩
      . exact .inr ⟨ht', .inl hmem⟩
    right
    unfold changeTableSize
    rw [if_pos (by omega)]
    exact ⟨rfl, .inr (by omega)⟩
  . left
    rw [if_pos (by simpa using hover)]
    exact ⟨rfl, by omega⟩

theorem infallibleRehashIfOverloaded_spec (h : Counted t) (mem : List Bool)
    : ∃ t', t.infallibleRehashIfOverloaded mem = some t' ∧ Loaded t' ∧ (t' = t ∨ Rebuilt t t') := by
  unfold infallibleRehashIfOverloaded
  rcases rehashIfOverloaded_spec h mem with ⟨ht', hload⟩ | ⟨t', ht', hrebuilt, -, -⟩ | ⟨ht', -⟩
  . rw [ht']
    refine ⟨t, rfl, ?_, .inl rfl⟩
    unfold Loaded
    omega
  . rw [ht']
    refine ⟨t', rfl, ?_, .inr hrebuilt⟩
    have := hrebuilt.counted.entryLoad
    unfold Loaded
    rw [hrebuilt.mRemovedCount]
    exact this
  . rw [ht']
    obtain ⟨t', ht', hrebuilt⟩ := rehashTableInPlace_spec h
    refine ⟨t', ht', ?_, .inr hrebuilt⟩
    have := hrebuilt.counted.entryLoad
    unfold Loaded
    rw [hrebuilt.mRemovedCount]
    exact this

section Insert

variable {slots slots' : List (EntrySlot T)} {i j : Nat} {old : EntrySlot T} {kh : HashNumber}

theorem entryAt_eq (slots : List (EntrySlot T)) (i : Nat)
    : entryAt slots i = ((views slots)[i]?.bind Slot.entry).map Prod.snd := by
  unfold entryAt
  rw [views_getElem?]
  cases slots[i]? with
  | none => rfl
  | some slot =>
    simp only [Option.bind_some, Option.map_some]
    unfold view
    cases slot.mEntry with
    | none =>
      simp only []
      split <;> rfl
    | some e => rfl

theorem MarkedSlots.entryAt_eq (h : MarkedSlots slots slots') (i : Nat)
    : entryAt slots' i = entryAt slots i := by
  rw [HashTable.entryAt_eq, HashTable.entryAt_eq, h.marked.entry_eq]

theorem entryAt_set (hi : slots[i]? = some old) (new : EntrySlot T) (j : Nat)
    : entryAt (slots.set i new) j = if j = i then new.mEntry else entryAt slots j := by
  unfold entryAt
  split
  next heq =>
    subst heq
    rw [Lists.getElem?_set_eq hi]
    rfl
  next hne => rw [List.getElem?_set_ne (Ne.symm hne)]

theorem entryAt_of_not_live (hvalid : AllValid slots) (hi : slots[i]? = some old)
    (hdead : old.isLive = false) : entryAt slots i = none := by
  unfold entryAt
  rw [hi, Option.bind_some]
  have := hvalid.getElem? hi
  unfold EntrySlot.Valid at this
  rw [hdead] at this
  exact Option.isNone_iff_eq_none.mp (Option.isSome_eq_false_iff.mp this.symm)

theorem inserted_of_not_live (h : Counted t) (hsome : t.mTable.isSome)
    (hload : 4 * (t.mEntryCount + 1) ≤ 3 * t.capacity) (hkh : KeptHash kh)
    (hmarked : MarkedSlots t.slots slots) (hreached : Reached (views slots) (keyPath t.mHashShift kh) i)
    (hold : slots[i]? = some old) (hdead : old.isLive = false) (e : T)
    : Inserted t { t.setLiveSlot slots i (if old.isRemoved then kh ||| sCollisionBit else kh) e with
        mRemovedCount := t.mRemovedCount - (if old.isRemoved then 1 else 0) } (kh, e) := by
  have hok := (h.slots hsome).marked hmarked
  have hcapacity (slots : List (EntrySlot T)) (kh : HashNumber)
      : (t.setLiveSlot slots i kh e).capacity = t.capacity := by
    unfold capacity rawCapacity
    rw [hsome]
    rfl
  have hentries := hashedEntries_insert hok.valid hold hdead hkh e
  have hcount := removedCount_insert hok.valid hold hkh e
  rw [hmarked.hashedEntries_eq] at hentries
  have hmarkedCount := hmarked.marked.removedCount_eq
  rw [h.removedCount] at hmarkedCount
  refine ⟨⟨h.shift, fun _ => hok.insert hold hdead hreached hkh e, ?_, ?_, ?_⟩, hentries, rfl, ?_, rfl, rfl,
    hcapacity _ _, rfl, i, ?_, ?_, ?_⟩
  . have := hentries.length_eq
    rw [length_cons, h.entryCount] at this
    exact this
  . simp only []
    rw [← hmarkedCount, ← hcount, Nat.add_sub_cancel]
    rfl
  . exact (hcapacity _ _).symm ▸ hload
  . exact Nat.sub_le _ _
  . have := entryAt_set hold (.setLive (if old.isRemoved then kh ||| sCollisionBit else kh) e) i
    rw [if_pos rfl] at this
    exact this
  . rw [← hmarked.entryAt_eq]
    exact entryAt_of_not_live hok.valid hold hdead
  . intro j hne
    have := entryAt_set hold (.setLive (if old.isRemoved then kh ||| sCollisionBit else kh) e) j
    rw [if_neg hne, hmarked.entryAt_eq] at this
    exact this

theorem exists_not_live_of_load (h : Counted t) (hload : 4 * (t.mEntryCount + 1) ≤ 3 * t.capacity)
    : ∃ (j : Nat) (slot : EntrySlot T), t.slots[j]? = some slot ∧ slot.isLive = false := by
  apply exists_not_live_slot h.valid
  rw [h.entryCount, ← h.capacity_eq]
  omega

theorem isSome_of_capacity (h : 0 < t.capacity) : t.mTable.isSome := by
  unfold capacity at h
  split at h
  next hsome => exact hsome
  next => omega

theorem putNewInfallibleInternal_spec {p : HashPolicy T Key Lookup} (h : Counted t)
    (hload : 4 * (t.mEntryCount + 1) ≤ 3 * t.capacity) (l : Lookup) (e : T)
    : ∃ t', putNewInfallibleInternal p t l e = some t' ∧ Inserted t t' (p.prepareHash l, e) := by
  have hsome := isSome_of_capacity (t := t) (by omega)
  have hok := h.slots hsome
  have hkh : KeptHash (p.prepareHash l) := p.prepareHash_toNat l
  obtain ⟨⟨i, slots⟩, hfound, hmarked, hreached, old, hold, hdead⟩ :=
    findNonLiveSlot_spec h.shift hok.valid hok.length (p.prepareHash l) (exists_not_live_of_load h hload)
  have hinserted := inserted_of_not_live h hsome hload hkh hmarked hreached hold hdead e
  unfold putNewInfallibleInternal
  simp only [hfound, hold, some_bind]
  cases hremoved : old.isRemoved with
  | true =>
    rw [hremoved] at hinserted
    exact ⟨_, rfl, hinserted⟩
  | false =>
    rw [hremoved] at hinserted
    exact ⟨_, rfl, hinserted⟩

theorem setLiveSlot_spec (h : Counted t) (hremoved : t.mRemovedCount = 0)
    (hload : 4 * (t.mEntryCount + 1) ≤ 3 * t.capacity) (hkh : KeptHash kh) (e : T)
    : ∃ i slots, t.findNonLiveSlot kh = some (i, slots) ∧ Inserted t (t.setLiveSlot slots i kh e) (kh, e) := by
  have hsome := isSome_of_capacity (t := t) (by omega)
  have hok := h.slots hsome
  obtain ⟨⟨i, slots⟩, hfound, hmarked, hreached, old, hold, hdead⟩ :=
    findNonLiveSlot_spec h.shift hok.valid hok.length kh (exists_not_live_of_load h hload)
  have hinserted := inserted_of_not_live h hsome hload hkh hmarked hreached hold hdead e
  have hcount : OpenAddressing.removedCount (views slots) = 0 := by
    have := hmarked.marked.removedCount_eq
    rw [h.removedCount, hremoved] at this
    exact this
  rw [isRemoved_of_removedCount hmarked.valid hcount hold] at hinserted
  exact ⟨i, slots, hfound, hinserted⟩

structure Removed (t t' : HashTable T) (i : Nat) (x : HashNumber × T) : Prop where
  counted : Counted t'
  entries : (x :: hashedEntries t'.slots).Perm (hashedEntries t.slots)
  mEntryCount : t.mEntryCount = t'.mEntryCount + 1
  mRemovedCount : t'.mRemovedCount ≤ t.mRemovedCount + 1
  mGen : t'.mGen = t.mGen
  mMutationCount : t'.mMutationCount = t.mMutationCount + 1
  capacity : t'.capacity = t.capacity
  isSome : t'.mTable.isSome
  slots : ∀ j, entryAt t'.slots j = if j = i then none else entryAt t.slots j

theorem isSome_of_getElem? (hi : t.slots[i]? = some old) : t.mTable.isSome := by
  unfold HashTable.slots at hi
  cases ht : t.mTable with
  | none =>
    rw [ht] at hi
    contradiction
  | some slots => rfl

theorem removeSlot_spec (h : Counted t) {e : T} (hi : t.slots[i]? = some old) (he : old.mEntry = some e)
    : ∃ t', t.removeSlot i = some t' ∧ Removed t t' i (old.getKeyHash, e) := by
  have hsome := isSome_of_getElem? hi
  have hok := h.slots hsome
  have hlive : old.isLive = true := by
    rw [hok.valid.getElem? hi, he]
    rfl
  have hentries := hashedEntries_erase hi he
  have hcount := removedCount_erase hi he
  rw [h.removedCount] at hcount
  have hlength := hentries.length_eq
  rw [length_cons, h.entryCount] at hlength
  have hload := h.entryLoad
  have hcapacity (slots : List (EntrySlot T)) : (t.setSlots slots).capacity = t.capacity := by
    unfold capacity rawCapacity
    rw [hsome]
    rfl
  have hslots : ∀ j, entryAt (t.slots.set i (clearedSlot old)) j = if j = i then none else entryAt t.slots j := by
    intro j
    have hnone : (clearedSlot old).mEntry = none := by
      unfold clearedSlot
      split <;> rfl
    rw [entryAt_set hi, hnone]
  have hcleared : t.removeSlot i = some { t.setSlots (t.slots.set i (clearedSlot old)) with
      mEntryCount := t.mEntryCount - 1
      mRemovedCount := t.mRemovedCount + (if old.hasCollision then 1 else 0)
      mMutationCount := t.mMutationCount + 1 } := by
    unfold removeSlot clearedSlot
    rw [hi]
    simp only [some_bind]
    cases old.hasCollision <;> rfl
  refine ⟨_, hcleared, ⟨h.shift, fun _ => hok.erase hi hlive, ?_, hcount, ?_⟩, hentries, ?_, ?_, rfl, rfl,
    hcapacity _, rfl, hslots⟩
  . exact Nat.eq_sub_of_add_eq hlength
  . have : 4 * (t.mEntryCount - 1) ≤ 3 * t.capacity := by omega
    rw [← hcapacity (t.slots.set i (clearedSlot old))] at this
    exact this
  . simp only []
    omega
  . simp only []
    split <;> omega

theorem rekeyWithoutRehash_spec {p : HashPolicy T Key Lookup} (h : Counted t) {e : T}
    (hi : t.slots[i]? = some old) (he : old.mEntry = some e) (l : Lookup) (k : Key)
    : ∃ s t', rekeyWithoutRehash p t i l k = some t' ∧ Removed t s i (old.getKeyHash, e)
      ∧ Inserted s t' (p.prepareHash l, p.setKey e k) := by
  obtain ⟨s, hs, hremoved⟩ := removeSlot_spec h hi he
  have hload : 4 * (s.mEntryCount + 1) ≤ 3 * s.capacity := by
    rw [← hremoved.mEntryCount, hremoved.capacity]
    exact h.entryLoad
  obtain ⟨t', ht', hinserted⟩ := putNewInfallibleInternal_spec (p := p) hremoved.counted hload l (p.setKey e k)
  refine ⟨s, t', ?_, hremoved, hinserted⟩
  unfold rekeyWithoutRehash
  simp only [hi, he, hs, ht', some_bind]

theorem Removed.loaded {x : HashNumber × T} {t' : HashTable T} (h : Removed t t' i x) (hload : Loaded t)
    : Loaded t' := by
  have := h.mEntryCount
  have := h.mRemovedCount
  unfold Loaded at hload ⊢
  rw [h.capacity]
  omega

theorem Inserted.loaded {x : HashNumber × T} {t' : HashTable T} (h : Inserted t t' x)
    (hload : 4 * (t.mEntryCount + t.mRemovedCount + 1) ≤ 3 * t.capacity) : Loaded t' := by
  have := h.mEntryCount
  have := h.mRemovedCount
  unfold Loaded
  rw [h.capacity]
  omega

end Insert

theorem Rebuilt.loaded {t' : HashTable T} (h : Rebuilt t t') : Loaded t' := by
  have := h.counted.entryLoad
  unfold Loaded
  rw [h.mRemovedCount]
  exact this

section Resize

theorem shrinkIfUnderloaded_spec (h : Counted t) (mem : List Bool)
    : ∃ t', t.shrinkIfUnderloaded mem = some t' ∧ (t' = t ∨ Rebuilt t t') := by
  unfold shrinkIfUnderloaded sMinCapacity sMinAlphaNumerator sAlphaDenominator
  simp only []
  split
  next hunder =>
    rw [Bool.and_eq_true, decide_eq_true_iff, decide_eq_true_iff] at hunder
    have hcap : t.capacity = t.rawCapacity := by
      unfold capacity
      rw [if_pos (isSome_of_capacity (by omega))]
    have hhalf : IsCapacity (t.capacity / 2) := by
      obtain ⟨shift, hshift, hpow⟩ := h.isCapacity
      rw [hcap, hpow] at hunder ⊢
      have hgt : 2 < kHashNumberBits - shift := by
        apply (Nat.pow_lt_pow_iff_right (a := 2) (by omega)).mp
        exact hunder.1
      unfold ShiftInRange at hshift
      refine ⟨shift + 1, ?_, ?_⟩
      . unfold ShiftInRange
        unfold kHashNumberBits at hgt
        omega
      . have : kHashNumberBits - shift = kHashNumberBits - (shift + 1) + 1 := by omega
        rw [this, Nat.pow_succ, Nat.mul_div_cancel _ Nat.two_pos]
    rcases changeTableSize_spec h hhalf (by omega) mem with ⟨t', ht', hrebuilt, -, -⟩ | ⟨ht', -⟩
    . rw [ht']
      exact ⟨t', rfl, .inr hrebuilt⟩
    . rw [ht']
      exact ⟨t, rfl, .inl rfl⟩
  next => exact ⟨t, rfl, .inl rfl⟩

theorem compact_spec (h : Counted t) (mem : List Bool)
    : ∃ t', t.compact mem = some t' ∧ (t' = t ∨ Rebuilt t t') := by
  unfold compact
  split
  next hempty =>
    unfold empty at hempty
    rw [decide_eq_true_iff] at hempty
    have hnil : hashedEntries t.slots = [] := by
      rw [← length_eq_zero_iff, h.entryCount, hempty]
    refine ⟨_, rfl, .inr ⟨⟨?_, nofun, ?_, rfl, ?_⟩, ?_, rfl, rfl, rfl, rfl⟩⟩
    . exact (by decide : 2 ≤ hashShift 0 ∧ hashShift 0 ≤ 30)
    . exact hempty.symm
    . simp only []
      omega
    . rw [hnil]
      exact List.Perm.refl _
  next =>
    split
    next hlt =>
      have hmax : bestCapacity t.mEntryCount ≤ sMaxCapacity := by
        obtain ⟨shift, hshift, hpow⟩ := h.isCapacity
        have hle := t.capacity_le
        have : 2 ^ (kHashNumberBits - shift) ≤ sMaxCapacity := by
          apply Nat.pow_le_pow_right Nat.two_pos
          unfold ShiftInRange at hshift
          unfold kHashNumberBits
          omega
        omega
      rcases changeTableSize_spec h (isCapacity_bestCapacity hmax) (bestCapacity_load _) mem with
        ⟨t', ht', hrebuilt, -, -⟩ | ⟨ht', -⟩
      . rw [ht']
        exact ⟨t', rfl, .inr hrebuilt⟩
      . rw [ht']
        exact ⟨t, rfl, .inl rfl⟩
    next => exact ⟨t, rfl, .inl rfl⟩

theorem reserve_spec (h : Counted t) (aLen : Nat) (mem : List Bool)
    : ∃ done t', t.reserve aLen mem = some (done, t') ∧ (t' = t ∨ Rebuilt t t')
      ∧ (done = false → t' = t ∧ (mem.head?.getD false = false ∨ sMaxInit < aLen)) := by
  unfold reserve
  split
  next => exact ⟨true, t, rfl, .inl rfl, nofun⟩
  next =>
    split
    next hmax => exact ⟨false, t, rfl, .inl rfl, fun _ => ⟨rfl, .inr hmax⟩⟩
    next hmax =>
      split
      next => exact ⟨true, t, rfl, .inl rfl, nofun⟩
      next hgt =>
        have hload := h.entryLoad
        have hcap := bestCapacity_le (Nat.le_of_not_lt hmax)
        rcases changeTableSize_spec h (isCapacity_bestCapacity hcap) (by omega) mem with
          ⟨t', ht', hrebuilt, -, -⟩ | ⟨ht', hmem⟩
        . rw [ht']
          exact ⟨true, t', rfl, .inr hrebuilt, nofun⟩
        . rw [ht']
          exact ⟨false, t, rfl, .inl rfl, fun _ => ⟨rfl, .inl hmem⟩⟩

theorem clear_spec (h : Counted t) : Counted t.clear ∧ hashedEntries t.clear.slots = [] ∧ Loaded t.clear := by
  have hslots : t.clear.slots = List.replicate t.slots.length .free := by
    unfold clear HashTable.slots
    cases t.mTable with
    | none => rfl
    | some slots => exact map_const' ..
  have hsome : t.clear.mTable.isSome = t.mTable.isSome := Option.isSome_map
  refine ⟨⟨h.shift, fun ht => ?_, ?_, ?_, ?_⟩, ?_, ?_⟩
  . rw [hsome] at ht
    rw [hslots, (h.slots ht).length]
    exact slotsOk_replicate
  . rw [hslots, hashedEntries_replicate]
    rfl
  . rw [hslots, views_removedCount_replicate]
    rfl
  . exact Nat.zero_le _
  . rw [hslots, hashedEntries_replicate]
  . exact Nat.zero_le _

end Resize

section Add

variable {t' : HashTable T} {x : HashNumber × T} {kh : HashNumber}

structure Added (t t' : HashTable T) (x : HashNumber × T) : Prop where
  counted : Counted t'
  loaded : Loaded t'
  entries : (hashedEntries t'.slots).Perm (x :: hashedEntries t.slots)
  mGen : t.mGen ≤ t'.mGen
  mMutationCount : t.mMutationCount < t'.mMutationCount

theorem Inserted.added (h : Inserted t t' x)
    (hload : 4 * (t.mEntryCount + t.mRemovedCount + 1) ≤ 3 * t.capacity) : Added t t' x := by
  refine ⟨h.counted, h.loaded hload, h.entries, ?_, ?_⟩
  . rw [h.mGen]
  . rw [h.mMutationCount]
    exact Nat.lt_succ_self _

theorem Rebuilt.added {s : HashTable T} (h : Rebuilt t s) (h' : Inserted s t' x)
    (hload : 4 * (t.mEntryCount + 1) ≤ 3 * s.capacity) : Added t t' x := by
  refine ⟨h'.counted, ?_, h'.entries.trans (h.entries.cons x), ?_, ?_⟩
  . apply h'.loaded
    rw [h.mEntryCount, h.mRemovedCount]
    exact hload
  . rw [h'.mGen, h.mGen]
    exact Nat.le_succ _
  . rw [h'.mMutationCount, h.mMutationCount]
    exact Nat.lt_succ_self _

theorem putNew_spec {p : HashPolicy T Key Lookup} (h : Counted t) (hloaded : Loaded t) (l : Lookup) (e : T)
    (oom ensured : Bool) (mem : List Bool)
    : ∃ done t', putNew p t l e oom ensured mem = some (done, t') ∧ (done = true → Added t t' (p.prepareHash l, e))
      ∧ (done = false → t' = t ∧ (oom = false ∨ ensured = false ∨ OutOfMemory t mem)) := by
  unfold putNew
  cases oom with
  | false => exact ⟨false, t, rfl, nofun, fun _ => ⟨rfl, .inl rfl⟩⟩
  | true =>
    cases ensured with
    | false => exact ⟨false, t, rfl, nofun, fun _ => ⟨rfl, .inr (.inl rfl)⟩⟩
    | true =>
      rcases rehashIfOverloaded_spec h mem with ⟨ht, hload⟩ | ⟨s, hs, hrebuilt, -, hload⟩ | ⟨ht, hmem⟩
      . obtain ⟨quarter, hquarter⟩ := h.four_dvd_capacity
        obtain ⟨t', ht', hinserted⟩ := putNewInfallibleInternal_spec (p := p) h (by omega) l e
        simp only [ht, ht', some_bind]
        exact ⟨true, t', rfl, fun _ => hinserted.added (by omega), nofun⟩
      . have hload := hload hloaded
        obtain ⟨t', ht', hinserted⟩ := putNewInfallibleInternal_spec (p := p) hrebuilt.counted (by
          rw [hrebuilt.mEntryCount]
          exact hload) l e
        simp only [hs, ht', some_bind]
        exact ⟨true, t', rfl, fun _ => hrebuilt.added hinserted hload, nofun⟩
      . simp only [ht, some_bind]
        exact ⟨false, t, rfl, nofun, fun _ => ⟨rfl, .inr (.inr hmem)⟩⟩

theorem mRemovedCount_pos (h : Counted t) {i : Nat} {slot : EntrySlot T} (hi : t.slots[i]? = some slot)
    (hremoved : slot.isRemoved = true) : 0 < t.mRemovedCount := by
  by_contra hzero
  have := isRemoved_of_removedCount h.valid (by rw [h.removedCount]; omega) hi
  rw [hremoved] at this
  contradiction

def GoesTo (t : HashTable T) (kh : HashNumber) : Option Nat → Prop
  | none => t.mTable = none
  | some i => ∃ slot, t.slots[i]? = some slot ∧ slot.isLive = false
    ∧ Reached (views t.slots) (keyPath t.mHashShift kh) i

theorem add_spec (h : Counted t) (hloaded : Loaded t) (aPtr : AddPtr) (hkh : KeptHash aPtr.mKeyHash)
    (hslot : GoesTo t aPtr.mKeyHash aPtr.mSlot) (e : T) (oom : Bool) (mem : List Bool)
    : ∃ done t', t.add aPtr e oom mem = some (done, t') ∧ (done = true → Added t t' (aPtr.mKeyHash, e))
      ∧ (done = false → t' = t ∧ (oom = false ∨ OutOfMemory t mem)) := by
  have hlive : isLiveHash aPtr.mKeyHash = true := isLiveHash_iff.mpr hkh.1
  unfold add
  rw [hlive]
  unfold GoesTo at hslot
  cases hptr : aPtr.mSlot with
  | none =>
    rw [hptr] at hslot
    have hcap : t.capacity = 0 := by
      unfold capacity
      rw [hslot]
      rfl
    have hempty : t.mEntryCount = 0 := by
      have := h.entryLoad
      omega
    have hraw : 4 * (t.mEntryCount + 1) ≤ 3 * t.rawCapacity := by
      obtain ⟨quarter, hquarter⟩ := h.isCapacity.four_dvd
      have := h.isCapacity.pos
      omega
    rcases changeTableSize_spec h h.isCapacity (by omega) mem with ⟨s, hs, hrebuilt, -, hcap'⟩ | ⟨ht, hmem⟩
    . obtain ⟨i, slots, hfound, hinserted⟩ := setLiveSlot_spec hrebuilt.counted hrebuilt.mRemovedCount (by
        rw [hrebuilt.mEntryCount, hcap']
        exact hraw) hkh e
      simp only [Bool.not_true, Bool.false_eq_true, if_false, hs, hfound, some_bind]
      refine ⟨true, _, rfl, fun _ => hrebuilt.added hinserted ?_, nofun⟩
      rw [hcap']
      exact hraw
    . simp only [Bool.not_true, Bool.false_eq_true, if_false, ht, some_bind]
      exact ⟨false, t, rfl, nofun, fun _ => ⟨rfl, .inr (.inl hmem)⟩⟩
  | some i =>
    rw [hptr] at hslot
    obtain ⟨slot, hi, hdead, hreached⟩ := hslot
    have hsome := isSome_of_getElem? hi
    simp only [Bool.not_true, Bool.false_eq_true, if_false, hi, some_bind]
    have hinserted (hload : 4 * (t.mEntryCount + 1) ≤ 3 * t.capacity) :=
      inserted_of_not_live h hsome hload hkh (MarkedSlots.refl h.valid) hreached hi hdead e
    cases hremoved : slot.isRemoved with
    | true =>
      cases oom with
      | false => exact ⟨false, t, rfl, nofun, fun _ => ⟨rfl, .inl rfl⟩⟩
      | true =>
        have hpos := mRemovedCount_pos h hi hremoved
        have hload : 4 * (t.mEntryCount + 1) ≤ 3 * t.capacity := by
          unfold Loaded at hloaded
          omega
        have hrecycled := hinserted hload
        rw [hremoved] at hrecycled
        refine ⟨true, _, rfl, fun _ => ⟨hrecycled.counted, ?_, hrecycled.entries, Nat.le_refl _, ?_⟩, nofun⟩
        . have hcapacity := hrecycled.capacity
          unfold Loaded at hloaded ⊢
          simp only [if_true] at hcapacity ⊢
          rw [hcapacity]
          have : (t.setLiveSlot t.slots i (aPtr.mKeyHash ||| sCollisionBit) e).mEntryCount = t.mEntryCount + 1 := rfl
          omega
        . exact Nat.lt_succ_self _
    | false =>
      rw [hremoved] at hinserted
      rcases rehashIfOverloaded_spec h mem with ⟨ht, hload⟩ | ⟨s, hs, hrebuilt, -, hload⟩ | ⟨ht, hmem⟩
      . simp only [Bool.false_eq_true, if_false, ht, some_bind]
        cases oom with
        | false => exact ⟨false, t, rfl, nofun, fun _ => ⟨rfl, .inl rfl⟩⟩
        | true =>
          obtain ⟨quarter, hquarter⟩ := h.four_dvd_capacity
          exact ⟨true, _, rfl, fun _ => (hinserted (by omega)).added (by omega), nofun⟩
      . have hload := hload hloaded
        obtain ⟨j, slots, hfound, hinserted⟩ := setLiveSlot_spec hrebuilt.counted hrebuilt.mRemovedCount (by
          rw [hrebuilt.mEntryCount]
          exact hload) hkh e
        simp only [Bool.false_eq_true, if_false, hs, hfound, some_bind]
        exact ⟨true, _, rfl, fun _ => hrebuilt.added hinserted hload, nofun⟩
      . simp only [Bool.false_eq_true, if_false, ht, some_bind]
        exact ⟨false, t, rfl, nofun, fun _ => ⟨rfl, .inr hmem⟩⟩

end Add

end HashTable

section Policy

variable {T Key Lookup : Type}

-- Equal keys hash alike, and an entry whose key has been set has that key.
structure HashPolicy.Lawful (p : HashPolicy T Key Lookup) : Prop where
  hash_eq : ∀ {k l l'}, p.match k l → p.match k l' → p.hash l = p.hash l'
  match_trans : ∀ {k k' l l'}, p.match k l → p.match k l' → p.match k' l → p.match k' l'
  getKey_setKey : ∀ e k, p.getKey (p.setKey e k) = k

theorem HashPolicy.Lawful.prepareHash_eq {p : HashPolicy T Key Lookup} (hp : p.Lawful) {e : T} {l l' : Lookup}
    (h : p.matchEntry e l) (h' : p.matchEntry e l') : p.prepareHash l = p.prepareHash l' := by
  unfold prepareHash
  rw [hp.hash_eq h h']

def Apart (p : HashPolicy T Key Lookup) (x y : HashNumber × T) : Prop :=
  ∀ l, p.matchEntry x.2 l = true → p.matchEntry y.2 l = false

theorem Apart.symm {p : HashPolicy T Key Lookup} {x y : HashNumber × T} (h : Apart p x y) : Apart p y x := by
  intro l hy
  rw [← Bool.not_eq_true]
  intro hx
  rw [h l hx] at hy
  contradiction

end Policy

namespace HashTable

variable {T Key Lookup : Type} {t : HashTable T}

section Stored

variable {p : HashPolicy T Key Lookup} {xs ys : List (HashNumber × T)} {l : Lookup} {e : T}

structure Stored (p : HashPolicy T Key Lookup) (xs : List (HashNumber × T)) : Prop where
  hash : ∀ x ∈ xs, ∃ l, p.matchEntry x.2 l = true ∧ x.1 = p.prepareHash l
  distinct : xs.Pairwise (Apart p)

theorem Stored.nil (p : HashPolicy T Key Lookup) : Stored p [] := ⟨nofun, .nil⟩

theorem Stored.perm (h : Stored p xs) (hperm : ys.Perm xs) : Stored p ys := by
  refine ⟨fun x hx => h.hash x (hperm.mem_iff.mp hx), ?_⟩
  exact (hperm.pairwise_iff Apart.symm).mpr h.distinct

theorem Stored.tail {x : HashNumber × T} (h : Stored p (x :: xs)) : Stored p xs :=
  ⟨fun y hy => h.hash y (mem_cons_of_mem _ hy), h.distinct.of_cons⟩

theorem Stored.cons (hp : p.Lawful) (h : Stored p xs) (hl : p.matchEntry e l = true)
    (hnew : ∀ x ∈ xs, p.matchEntry x.2 l = false) : Stored p ((p.prepareHash l, e) :: xs) := by
  constructor
  . intro x hx
    rcases mem_cons.mp hx with rfl | hx
    . exact ⟨l, hl, rfl⟩
    . exact h.hash x hx
  refine .cons (fun y hy l' hl' => ?_) h.distinct
  rw [← Bool.not_eq_true]
  intro hy'
  have := hp.match_trans hl' hl hy'
  have hfalse := hnew y hy
  unfold HashPolicy.matchEntry at hfalse
  rw [this] at hfalse
  contradiction

theorem Stored.hash_eq (hp : p.Lawful) (h : Stored p xs) {x : HashNumber × T} (hx : x ∈ xs)
    (hl : p.matchEntry x.2 l = true) : x.1 = p.prepareHash l := by
  obtain ⟨l', hl', hhash⟩ := h.hash x hx
  rw [hhash, hp.prepareHash_eq hl' hl]

theorem Stored.eq_of_match (h : Stored p xs) {x y : HashNumber × T} (hx : x ∈ xs) (hy : y ∈ xs)
    (hxl : p.matchEntry x.2 l = true) (hyl : p.matchEntry y.2 l = true) : x = y := by
  by_contra hne
  have : Std.Symm (Apart p) := ⟨fun _ _ => Apart.symm⟩
  have hfalse := h.distinct.forall hx hy hne l hxl
  rw [hyl] at hfalse
  contradiction

end Stored

section Lookup

variable {p : HashPolicy T Key Lookup} {l : Lookup}

theorem slotMatches_iff {slot : EntrySlot T} {kh : HashNumber}
    : slotMatches p slot kh l = true ↔ slot.getKeyHash = kh ∧ ∃ e, slot.mEntry = some e ∧ p.matchEntry e l = true := by
  unfold slotMatches matchHash getKeyHash
  rw [Bool.and_eq_true, decide_eq_true_iff, Option.any_eq_true]

theorem NotFound.not_mem (hp : p.Lawful) (h : Counted t) (hsome : t.mTable.isSome)
    (hstored : Stored p (hashedEntries t.slots)) (hnot : NotFound p t.mHashShift (p.prepareHash l) l t.slots)
    : ∀ x ∈ hashedEntries t.slots, p.matchEntry x.2 l = false := by
  intro x hx
  rw [← Bool.not_eq_true]
  intro hl
  have hhash := hstored.hash_eq hp hx hl
  obtain ⟨m, hmiss, last, hlast, hfree⟩ := hnot
  obtain ⟨j, c, hj⟩ := mem_entries.mp hx
  have hviewFree : (views t.slots)[entryPath t.mHashShift x m]? = some .free := by
    unfold entryPath
    rw [hhash, views_getElem?, hlast, Option.map_some, ((h.valid.getElem? hlast).isFree_iff_view).mp hfree]
  obtain ⟨i, hi, hpath⟩ := (h.slots hsome).reachable.exists_before hj hviewFree
  obtain ⟨slot, hslot, -, hno⟩ := hmiss i hi
  unfold entryPath at hpath
  rw [hhash] at hpath
  rw [hpath] at hslot
  rw [views_getElem?, hslot, Option.map_some, Option.some.injEq] at hj
  obtain ⟨hentry, hkey, -⟩ := view_live hj
  have := slotMatches_iff.mpr ⟨hkey.trans hhash, x.2, hentry, hl⟩
  rw [hno] at this
  contradiction

def SlotOf (p : HashPolicy T Key Lookup) (l : Lookup) (slots : List (EntrySlot T)) (i : Nat) : Prop :=
  (∃ e, entryAt slots i = some e ∧ p.matchEntry e l = true)
    ∨ (∃ slot, slots[i]? = some slot ∧ slot.isLive = false)
      ∧ ∀ x ∈ hashedEntries slots, p.matchEntry x.2 l = false

theorem exists_free_of_loaded (h : Counted t) (hsome : t.mTable.isSome) (hloaded : Loaded t)
    : ∃ (j : Nat) (slot : EntrySlot T), t.slots[j]? = some slot ∧ slot.isFree = true := by
  apply exists_free_slot h.valid
  have hpos : 0 < t.capacity := by
    unfold capacity
    rw [hsome]
    exact h.isCapacity.pos
  unfold Loaded at hloaded
  rw [h.entryCount, h.removedCount, ← h.capacity_eq]
  omega

theorem lookupSlot_found (hp : p.Lawful) (h : Counted t) (hsome : t.mTable.isSome) (hloaded : Loaded t)
    (hstored : Stored p (hashedEntries t.slots)) (reason : LookupReason) (l : Lookup)
    : ∃ found, lookupSlot p reason t l (p.prepareHash l) = some found ∧ MarkedSlots t.slots found.2
      ∧ SlotOf p l found.2 found.1
      ∧ (reason = .ForAdd → entryAt found.2 found.1 = none
        → Reached (views found.2) (keyPath t.mHashShift (p.prepareHash l)) found.1) := by
  have hok := h.slots hsome
  obtain ⟨found, heq, hmarked, hfound⟩ := lookupSlot_spec p reason l h.shift hok.valid hok.length
    (p.prepareHash l) (exists_free_of_loaded h hsome hloaded)
  refine ⟨found, heq, hmarked, ?_, ?_⟩
  . cases hfound with
    | hit slot hslot hmatch =>
      obtain ⟨-, e, he, hl⟩ := slotMatches_iff.mp hmatch
      left
      refine ⟨e, ?_, hl⟩
      unfold entryAt
      rw [hslot, Option.bind_some, he]
    | miss slot hslot hdead hnot hreached =>
      right
      rw [hmarked.hashedEntries_eq]
      exact ⟨⟨slot, hslot, hdead⟩, hnot.not_mem hp h hsome hstored⟩
  . intro hreason hnone
    cases hfound with
    | hit slot hslot hmatch =>
      obtain ⟨-, e, he, -⟩ := slotMatches_iff.mp hmatch
      unfold entryAt at hnone
      rw [hslot, Option.bind_some, he] at hnone
      contradiction
    | miss slot hslot hdead hnot hreached => exact hreached hreason

theorem isLiveAt_eq (hvalid : AllValid t.slots) (i : Nat) : t.isLiveAt i = (entryAt t.slots i).isSome := by
  unfold isLiveAt entryAt
  cases hi : t.slots[i]? with
  | none => rfl
  | some slot =>
    rw [Option.any_some, Option.bind_some]
    exact hvalid.getElem? hi

theorem hashedEntries_nil (h : Counted t) (hempty : t.mEntryCount = 0) : hashedEntries t.slots = [] := by
  rw [← length_eq_zero_iff, h.entryCount, hempty]

theorem lookup_spec (hp : p.Lawful) (h : Counted t) (hloaded : Loaded t)
    (hstored : Stored p (hashedEntries t.slots)) (l : Lookup)
    : (∃ i e, lookup p t l = some (some i) ∧ entryAt t.slots i = some e ∧ p.matchEntry e l = true)
      ∨ (lookup p t l = some none ∧ ∀ x ∈ hashedEntries t.slots, p.matchEntry x.2 l = false) := by
  unfold lookup
  split
  next hempty =>
    unfold empty at hempty
    rw [decide_eq_true_iff] at hempty
    right
    rw [hashedEntries_nil h hempty]
    exact ⟨rfl, nofun⟩
  next hempty =>
    have hsome : t.mTable.isSome := by
      apply isSome_of_capacity
      have := h.entryLoad
      unfold empty at hempty
      rw [decide_eq_true_iff] at hempty
      omega
    obtain ⟨⟨i, slots⟩, hfound, hmarked, hslot, -⟩ :=
      lookupSlot_found hp h hsome hloaded hstored .ForNonAdd l
    simp only [hfound, some_bind, isLiveAt_eq h.valid, ← hmarked.entryAt_eq]
    rcases hslot with ⟨e, he, hl⟩ | ⟨⟨slot, hi, hdead⟩, hnone⟩
    . left
      refine ⟨i, e, ?_, he, hl⟩
      rw [he]
      rfl
    right
    rw [entryAt_of_not_live hmarked.valid hi hdead]
    rw [hmarked.hashedEntries_eq] at hnone
    exact ⟨rfl, hnone⟩

end Lookup

section Enumeration

variable {slots slots' : List (EntrySlot T)} {i j : Nat}

def contents (slots : List (EntrySlot T)) : List T := slots.filterMap mEntry

theorem contents_eq (slots : List (EntrySlot T)) : contents slots = (hashedEntries slots).map Prod.snd := by
  induction slots with
  | nil => rfl
  | cons slot rest ih =>
    rw [hashedEntries_cons, map_append, ← ih]
    unfold contents
    rw [filterMap_cons]
    cases slot.mEntry <;> rfl

theorem contents_drop (slots : List (EntrySlot T)) (i : Nat)
    : contents (slots.drop i) = (entryAt slots i).toList ++ contents (slots.drop (i + 1)) := by
  unfold entryAt
  by_cases hlt : i < slots.length
  . rw [drop_eq_getElem_cons hlt, List.getElem?_eq_getElem hlt, Option.bind_some]
    unfold contents
    rw [filterMap_cons]
    cases slots[i].mEntry <;> rfl
  . rw [drop_eq_nil_of_le (by omega), drop_eq_nil_of_le (by omega), List.getElem?_eq_none (by omega)]
    rfl

theorem contents_eq_map (slots : List (EntrySlot T)) (i : Nat)
    : contents (slots.drop i) = ((slots.map mEntry).drop i).filterMap id := by
  unfold contents
  rw [← map_drop, filterMap_map]
  rfl

theorem map_mEntry_getElem? (slots : List (EntrySlot T)) (i : Nat)
    : (slots.map mEntry)[i]?.join = entryAt slots i := by
  unfold entryAt
  rw [List.getElem?_map]
  cases slots[i]? <;> rfl

theorem map_mEntry_ext {os os' : List (Option T)} (hlength : os'.length = os.length)
    (h : ∀ j : Nat, os'[j]?.join = os[j]?.join) : os' = os := by
  apply ext_getElem hlength
  intro j hj' hj
  have := h j
  rw [List.getElem?_eq_getElem hj, List.getElem?_eq_getElem hj'] at this
  exact this

theorem contents_drop_insert {e : T} (hlength : slots'.length = slots.length) (hnew : entryAt slots' j = some e)
    (hold : entryAt slots j = none) (hother : ∀ k, k ≠ j → entryAt slots' k = entryAt slots k) (i : Nat)
    : (contents (slots'.drop i)).Perm (contents (slots.drop i))
      ∨ (contents (slots'.drop i)).Perm (e :: contents (slots.drop i)) := by
  have hlt : j < slots.length := by
    by_contra hge
    unfold entryAt at hnew
    rw [List.getElem?_eq_none (by omega)] at hnew
    contradiction
  have hset : slots'.map mEntry = (slots.map mEntry).set j (some e) := by
    apply map_mEntry_ext
    . rw [length_set, length_map, length_map, hlength]
    intro k
    rw [map_mEntry_getElem?]
    by_cases hk : j = k
    . subst hk
      rw [hnew, List.getElem?_set_self (by rw [length_map]; exact hlt)]
      rfl
    . rw [List.getElem?_set_ne hk, map_mEntry_getElem?, hother k (Ne.symm hk)]
  rw [contents_eq_map, contents_eq_map, hset, drop_set]
  split
  next => exact .inl (List.Perm.refl _)
  next hle =>
    right
    have hget : ((slots.map mEntry).drop i)[j - i]? = some none := by
      rw [List.getElem?_drop, Nat.add_sub_cancel' (by omega), List.getElem?_map, List.getElem?_eq_getElem hlt]
      unfold entryAt at hold
      rw [List.getElem?_eq_getElem hlt] at hold
      exact congrArg some hold
    exact Lists.filterMap_set_perm (f := id) hget (some e)

theorem contents_drop_congr (hlength : slots'.length = slots.length)
    (h : ∀ k, i ≤ k → entryAt slots' k = entryAt slots k) : contents (slots'.drop i) = contents (slots.drop i) := by
  rw [contents_eq_map, contents_eq_map]
  congr 1
  apply map_mEntry_ext
  . rw [length_drop, length_drop, length_map, length_map, hlength]
  intro k
  rw [List.getElem?_drop, List.getElem?_drop, map_mEntry_getElem?, map_mEntry_getElem?]
  exact h (i + k) (Nat.le_add_right i k)

theorem skip_spec (hvalid : AllValid t.slots)
    : ∀ {rounds i : Nat}, i ≤ t.slots.length → t.slots.length - i ≤ rounds
      → ModIterator.skip t t.slots.length rounds i ≤ t.slots.length
        ∧ contents (t.slots.drop (ModIterator.skip t t.slots.length rounds i)) = contents (t.slots.drop i)
        ∧ (ModIterator.skip t t.slots.length rounds i < t.slots.length
          → (entryAt t.slots (ModIterator.skip t t.slots.length rounds i)).isSome) := by
  intro rounds
  induction rounds with
  | zero =>
    intro i hle hrounds
    unfold ModIterator.skip
    exact ⟨hle, rfl, fun hlt => by omega⟩
  | succ rounds ih =>
    intro i hle hrounds
    unfold ModIterator.skip
    rw [isLiveAt_eq hvalid]
    split
    next hdead =>
      rw [Bool.and_eq_true, decide_eq_true_iff, Bool.not_eq_true'] at hdead
      obtain ⟨hle', hcontents, hlive⟩ := ih (i := i + 1) (by omega) (by omega)
      refine ⟨hle', ?_, hlive⟩
      rw [hcontents, contents_drop t.slots i, Option.isNone_iff_eq_none.mp (Option.isSome_eq_false_iff.mp hdead.2)]
      rfl
    next hlive =>
      refine ⟨hle, rfl, fun hlt => ?_⟩
      rw [Bool.and_eq_true, decide_eq_true_iff, Bool.not_eq_true', not_and, Bool.not_eq_false] at hlive
      exact hlive hlt

end Enumeration

end HashTable

end SpiderMonkey
