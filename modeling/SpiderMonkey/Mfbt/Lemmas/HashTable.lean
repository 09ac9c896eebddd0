import SpiderMonkey.Lib.OptionBind
import SpiderMonkey.Mfbt.Impl.HashTable
import SpiderMonkey.Lib.OpenAddressing

/-!
This module contains the verification of the operations of the hash table on its slots.
-/

namespace SpiderMonkey

open List EntrySlot
open OpenAddressing

theorem getElem_sCollisionBit (i : Nat) (hi : i < 32) : sCollisionBit[i] = decide (i = 0) := by
  unfold sCollisionBit
  cases i with
  | zero => simp
  | succ i => simp

theorem and_not_collision_eq (h : HashNumber) : h &&& ~~~sCollisionBit = (h >>> 1) <<< 1 := by
  ext i hi
  rw [BitVec.getElem_and, BitVec.getElem_not, getElem_sCollisionBit, BitVec.getElem_shiftLeft]
  cases i with
  | zero => simp
  | succ i => simp [BitVec.getLsbD_eq_getElem hi, Nat.add_comm 1]

theorem toNat_and_not_collision (h : HashNumber)
    : (h &&& ~~~sCollisionBit).toNat = h.toNat / 2 * 2 := by
  rw [and_not_collision_eq, BitVec.toNat_shiftLeft, BitVec.toNat_ushiftRight,
    Nat.shiftRight_eq_div_pow, Nat.shiftLeft_eq]
  have := h.isLt
  omega

theorem toNat_or_collision (h : HashNumber)
    : (h ||| sCollisionBit).toNat = h.toNat / 2 * 2 + 1 := by
  rw [BitVec.toNat_or]
  have hdiv : (h.toNat ||| sCollisionBit.toNat) / 2 = h.toNat / 2 := by
    rw [Nat.or_div_two]
    exact Nat.or_zero _
  have hmod : (h.toNat ||| sCollisionBit.toNat) % 2 = 1 := Nat.or_mod_two_eq_one.mpr (.inr rfl)
  omega

theorem toNat_and_collision (h : HashNumber) : (h &&& sCollisionBit).toNat = h.toNat % 2 := by
  rw [BitVec.toNat_and]
  exact Nat.and_one_is_mod _

theorem isLiveHash_iff : isLiveHash h = true ↔ 2 ≤ h.toNat := by
  unfold isLiveHash
  rw [decide_eq_true_iff, BitVec.lt_def]
  exact Iff.rfl

namespace HashPolicy

variable {T Key Lookup : Type} (p : HashPolicy T Key Lookup)

theorem prepareHash_toNat (l : Lookup) : 2 ≤ (p.prepareHash l).toNat ∧ (p.prepareHash l).toNat % 2 = 0 := by
  unfold prepareHash
  simp only []
  rw [toNat_and_not_collision]
  split
  next hlive =>
    rw [isLiveHash_iff] at hlive
    omega
  next hdead =>
    rw [isLiveHash_iff] at hdead
    have : (sRemovedKey + 1#32).toNat = 2 := rfl
    rw [BitVec.toNat_sub, this]
    omega

end HashPolicy

namespace EntrySlot

variable {T : Type} {s : EntrySlot T}

def Valid (s : EntrySlot T) : Prop := s.isLive = s.mEntry.isSome

def view (s : EntrySlot T) : Slot (HashNumber × T) :=
  match s.mEntry with
  | some e => .live s.hasCollision (s.getKeyHash, e)
  | none => if s.isFree then .free else .removed

theorem isFree_iff : s.isFree = true ↔ s.mKeyHash.toNat = 0 := by
  unfold isFree
  rw [decide_eq_true_iff, ← BitVec.toNat_inj]
  exact Iff.rfl

theorem isRemoved_iff : s.isRemoved = true ↔ s.mKeyHash.toNat = 1 := by
  unfold isRemoved
  rw [decide_eq_true_iff, ← BitVec.toNat_inj]
  exact Iff.rfl

theorem isLive_iff : s.isLive = true ↔ 2 ≤ s.mKeyHash.toNat := isLiveHash_iff

theorem hasCollision_iff : s.hasCollision = true ↔ s.mKeyHash.toNat % 2 = 1 := by
  unfold hasCollision
  rw [decide_eq_true_iff, ne_eq, ← BitVec.toNat_inj, toNat_and_collision]
  have : BitVec.toNat 0#32 = 0 := rfl
  omega

theorem hasCollision_eq (s : EntrySlot T) : s.hasCollision = decide (s.mKeyHash.toNat % 2 = 1) := by
  rw [Bool.eq_iff_iff, decide_eq_true_iff, hasCollision_iff]

section Valid

theorem Valid.entry (h : s.Valid) : s.view.entry.isSome = s.isLive := by
  unfold view
  rw [h]
  cases s.mEntry with
  | none =>
    simp only []
    split <;> rfl
  | some e => rfl

theorem Valid.isFree_iff_view (h : s.Valid) : s.isFree = true ↔ s.view = .free := by
  unfold Valid at h
  unfold view
  split
  next e he =>
    rw [he] at h
    rw [isFree_iff]
    have := isLive_iff.mp h
    constructor
    . omega
    . exact nofun
  next he =>
    constructor
    . intro hfree
      rw [if_pos hfree]
    intro hview
    split at hview
    next hfree => exact hfree
    next => contradiction

theorem Valid.isRemoved_view (h : s.Valid) : s.view.isRemoved = s.isRemoved := by
  unfold Valid at h
  rw [Bool.eq_iff_iff, isRemoved_iff]
  unfold view
  split
  next e he =>
    rw [he] at h
    have := isLive_iff.mp h
    constructor
    . exact nofun
    . omega
  next he =>
    rw [he] at h
    have hdead : ¬2 ≤ s.mKeyHash.toNat := by
      rw [← isLive_iff, h]
      exact Bool.false_ne_true
    split
    next hfree =>
      rw [isFree_iff] at hfree
      constructor
      . exact nofun
      . omega
    next hfree =>
      rw [isFree_iff] at hfree
      constructor
      . omega
      . exact fun _ => rfl

theorem view_of_entry (he : s.mEntry = some e)
    : s.view = .live s.hasCollision (s.getKeyHash, e) := by
  unfold view
  rw [he]

theorem view_live (h : s.view = .live c (kh, e))
    : s.mEntry = some e ∧ s.getKeyHash = kh ∧ s.hasCollision = c := by
  unfold view at h
  split at h
  next e' he =>
    injection h with hc hx
    injection hx with hkh he'
    exact ⟨by rw [he, he'], hkh, hc⟩
  next =>
    split at h <;> contradiction

theorem Valid.setCollision (h : s.Valid) (hlive : s.isLive) : s.setCollision.Valid := by
  unfold Valid at h ⊢
  rw [show s.setCollision.mEntry = s.mEntry from rfl, ← h, hlive]
  rw [isLive_iff] at hlive ⊢
  unfold EntrySlot.setCollision
  rw [toNat_or_collision]
  omega

theorem Valid.view_setCollision (h : s.Valid) (hlive : s.isLive)
    : s.setCollision.view = s.view.mark := by
  unfold Valid at h
  rw [hlive] at h
  obtain ⟨e, he⟩ := Option.isSome_iff_exists.mp h.symm
  rw [view_of_entry he, view_of_entry (s := s.setCollision) (e := e) he]
  have hcollision : s.setCollision.hasCollision = true := by
    rw [hasCollision_iff]
    unfold EntrySlot.setCollision
    rw [toNat_or_collision]
    omega
  have hhash : s.setCollision.getKeyHash = s.getKeyHash := by
    unfold getKeyHash EntrySlot.setCollision
    rw [← BitVec.toNat_inj, toNat_and_not_collision, toNat_and_not_collision, toNat_or_collision]
    omega
  rw [hcollision, hhash]
  rfl

theorem valid_setLive (h : 2 ≤ kh.toNat) : (setLive kh e).Valid := by
  unfold Valid
  rw [show (setLive kh e).mEntry.isSome = true from rfl, isLive_iff]
  exact h

theorem view_setLive (hkh : kh.toNat % 2 = 0)
    : (setLive kh e).view = .live false (kh, e) := by
  rw [view_of_entry (s := setLive kh e) (e := e) rfl]
  have hcollision : (setLive kh e).hasCollision = false := by
    rw [hasCollision_eq, decide_eq_false_iff_not, show (setLive kh e).mKeyHash = kh from rfl]
    omega
  have hhash : (setLive kh e).getKeyHash = kh := by
    unfold getKeyHash setLive
    rw [← BitVec.toNat_inj, toNat_and_not_collision]
    simp only []
    omega
  rw [hcollision, hhash]

theorem view_setLive_collision (hkh : kh.toNat % 2 = 0)
    : (setLive (kh ||| sCollisionBit) e).view = .live true (kh, e) := by
  rw [view_of_entry (s := setLive (kh ||| sCollisionBit) e) (e := e) rfl]
  have hcollision : (setLive (kh ||| sCollisionBit) e).hasCollision = true := by
    rw [hasCollision_iff]
    unfold setLive
    simp only []
    rw [toNat_or_collision]
    omega
  have hhash : (setLive (kh ||| sCollisionBit) e).getKeyHash = kh := by
    unfold getKeyHash setLive
    simp only []
    rw [← BitVec.toNat_inj, toNat_and_not_collision, toNat_or_collision]
    omega
  rw [hcollision, hhash]

theorem valid_free : (free : EntrySlot T).Valid := rfl

end Valid

end EntrySlot

namespace HashTable

def keyPath (shift : Nat) (keyHash : HashNumber) : Nat → Nat :=
  DoubleHashing.probe (2 ^ (kHashNumberBits - shift)) (keyHash >>> shift).toNat
    (((keyHash <<< (kHashNumberBits - shift)) >>> shift) ||| 1#32).toNat

def entryPath {T : Type} (shift : Nat) (x : HashNumber × T) : Nat → Nat := keyPath shift x.1

def ShiftInRange (shift : Nat) : Prop := 2 ≤ shift ∧ shift ≤ 30

section Path

variable {shift : Nat} {kh : HashNumber}

theorem toNat_ushiftRight_lt (hshift : shift ≤ 32) (kh : HashNumber)
    : (kh >>> shift).toNat < 2 ^ (kHashNumberBits - shift) := by
  rw [BitVec.toNat_ushiftRight, Nat.shiftRight_eq_div_pow]
  apply Nat.div_lt_of_lt_mul
  rw [← Nat.pow_add]
  have : shift + (kHashNumberBits - shift) = 32 := by
    unfold kHashNumberBits
    omega
  rw [this]
  exact kh.isLt

theorem two_le_size (h : ShiftInRange shift) : 2 ≤ 2 ^ (kHashNumberBits - shift) := by
  have hle : 1 ≤ kHashNumberBits - shift := by
    unfold ShiftInRange at h
    unfold kHashNumberBits
    omega
  exact Nat.pow_le_pow_right Nat.two_pos hle

theorem stride_lt (h : ShiftInRange shift) (kh : HashNumber)
    : (((kh <<< (kHashNumberBits - shift)) >>> shift) ||| 1#32).toNat < 2 ^ (kHashNumberBits - shift) := by
  have hle : shift ≤ 32 := by
    unfold ShiftInRange at h
    omega
  have hlt := toNat_ushiftRight_lt hle (kh <<< (kHashNumberBits - shift))
  have htwo := two_le_size h
  rw [BitVec.toNat_or]
  apply Nat.or_lt_two_pow hlt
  exact htwo

theorem stride_odd (shift : Nat) (kh : HashNumber)
    : (((kh <<< (kHashNumberBits - shift)) >>> shift) ||| 1#32).toNat % 2 = 1 := by
  rw [BitVec.toNat_or]
  exact Nat.or_mod_two_eq_one.mpr (.inr rfl)

theorem keyPath_lt (shift : Nat) (kh : HashNumber) (i : Nat)
    : keyPath shift kh i < 2 ^ (kHashNumberBits - shift) :=
  Nat.mod_lt _ (Nat.two_pow_pos _)

theorem exists_keyPath (h : ShiftInRange shift) (kh : HashNumber) (hj : j < 2 ^ (kHashNumberBits - shift))
    : ∃ i < 2 ^ (kHashNumberBits - shift), keyPath shift kh i = j := by
  apply DoubleHashing.exists_probe _ (stride_odd shift kh) (stride_lt h kh) hj
  unfold ShiftInRange at h
  unfold kHashNumberBits
  omega

variable {T : Type} {t : HashTable T}

theorem hash1_toNat (h : ShiftInRange t.mHashShift) (kh : HashNumber)
    : (t.hash1 kh).toNat = keyPath t.mHashShift kh 0 := by
  unfold keyPath
  rw [DoubleHashing.probe_zero]
  . rfl
  . unfold ShiftInRange at h
    exact toNat_ushiftRight_lt (by omega) kh

theorem sizeMask_toNat (h : ShiftInRange t.mHashShift) (kh : HashNumber)
    : (t.hash2 kh).mSizeMask.toNat = 2 ^ (kHashNumberBits - t.mHashShift) - 1 := by
  have htwo := two_le_size h
  have hlt : 2 ^ (kHashNumberBits - t.mHashShift) < 2 ^ 32 := by
    unfold ShiftInRange at h
    apply Nat.pow_lt_pow_right (by omega)
    unfold kHashNumberBits
    omega
  have hshl : (1#32 <<< (kHashNumberBits - t.mHashShift)).toNat = 2 ^ (kHashNumberBits - t.mHashShift) := by
    rw [BitVec.toNat_shiftLeft, Nat.shiftLeft_eq, BitVec.toNat_ofNat, Nat.mod_eq_of_lt (by omega : 1 < 2 ^ 32),
      Nat.one_mul, Nat.mod_eq_of_lt hlt]
  unfold hash2
  simp only []
  rw [BitVec.toNat_sub_of_le, hshl]
  . rfl
  . rw [BitVec.le_def, hshl]
    exact Nat.le_of_succ_le htwo

theorem applyDoubleHash_toNat (h : ShiftInRange t.mHashShift) {i : Nat}
    (hi : h1.toNat = keyPath t.mHashShift kh i)
    : (applyDoubleHash h1 (t.hash2 kh)).toNat = keyPath t.mHashShift kh (i + 1) := by
  have hstride := stride_lt h kh
  have hstep := DoubleHashing.probe_succ (2 ^ (kHashNumberBits - t.mHashShift)) (kh >>> t.mHashShift).toNat
    (((kh <<< (kHashNumberBits - t.mHashShift)) >>> t.mHashShift) ||| 1#32).toNat i
  have hpow : 2 ^ 32 = 2 ^ (kHashNumberBits - t.mHashShift) * 2 ^ t.mHashShift := by
    rw [← Nat.pow_add]
    unfold ShiftInRange at h
    unfold kHashNumberBits
    congr 1
    omega
  unfold applyDoubleHash keyPath
  unfold keyPath at hi
  rw [BitVec.toNat_and, sizeMask_toNat h, Nat.and_two_pow_sub_one_eq_mod, BitVec.toNat_sub, hpow,
    Nat.mod_mul_right_mod, hstep, ← hi]
  unfold hash2
  simp only []
  generalize (((kh <<< (kHashNumberBits - t.mHashShift)) >>> t.mHashShift) ||| 1#32).toNat = stride at *
  generalize 2 ^ (kHashNumberBits - t.mHashShift) = size at *
  have hle : size ≤ size * 2 ^ t.mHashShift := Nat.le_mul_of_pos_right _ (Nat.two_pow_pos _)
  have hsplit : size * 2 ^ t.mHashShift - stride + h1.toNat
      = h1.toNat + (size - stride) + size * (2 ^ t.mHashShift - 1) := by
    rw [Nat.mul_sub, Nat.mul_one]
    omega
  rw [hsplit, Nat.add_mul_mod_self_left]

end Path

section Slots

variable {T Key Lookup : Type} {p : HashPolicy T Key Lookup}
variable {slots slots' slots'' : List (EntrySlot T)} {j : Nat} {slot : EntrySlot T}

def AllValid (slots : List (EntrySlot T)) : Prop := ∀ slot ∈ slots, slot.Valid

def views (slots : List (EntrySlot T)) : List (Slot (HashNumber × T)) := slots.map view

theorem length_views (slots : List (EntrySlot T)) : (views slots).length = slots.length :=
  length_map _

theorem views_getElem? (slots : List (EntrySlot T)) (j : Nat)
    : (views slots)[j]? = slots[j]?.map view :=
  List.getElem?_map ..

theorem views_set (slots : List (EntrySlot T)) (j : Nat) (slot : EntrySlot T)
    : views (slots.set j slot) = (views slots).set j slot.view :=
  map_set

theorem AllValid.getElem? (h : AllValid slots) (hj : slots[j]? = some slot) : slot.Valid :=
  h slot (mem_of_getElem? hj)

theorem AllValid.set (h : AllValid slots) (hslot : slot.Valid) : AllValid (slots.set j slot) := by
  intro s hs
  rcases mem_or_eq_of_mem_set hs with hs | rfl
  . exact h s hs
  . exact hslot

structure MarkedSlots (slots slots' : List (EntrySlot T)) : Prop where
  valid : AllValid slots'
  marked : Marked (views slots) (views slots')

namespace MarkedSlots

theorem refl (h : AllValid slots) : MarkedSlots slots slots := ⟨h, Marked.refl _⟩

theorem trans (h : MarkedSlots slots slots') (h' : MarkedSlots slots' slots'')
    : MarkedSlots slots slots'' :=
  ⟨h'.valid, h.marked.trans h'.marked⟩

theorem length (h : MarkedSlots slots slots') : slots'.length = slots.length := by
  rw [← length_views, ← length_views, h.marked.length]

theorem setCollision (h : AllValid slots) (hj : slots[j]? = some slot) (hlive : slot.isLive)
    : MarkedSlots slots (slots.set j slot.setCollision) := by
  have hslot := h.getElem? hj
  constructor
  . exact h.set (hslot.setCollision hlive)
  rw [views_set, hslot.view_setCollision hlive]
  apply Marked.set
  rw [views_getElem?, hj, Option.map_some]

theorem exists_slot (h : MarkedSlots slots slots') (hj : slots[j]? = some slot)
    : ∃ slot', slots'[j]? = some slot' := by
  obtain ⟨hlt, -⟩ := List.getElem?_eq_some_iff.mp hj
  rw [← h.length] at hlt
  exact ⟨_, List.getElem?_eq_getElem hlt⟩

theorem view_eq_of_not_live (h : MarkedSlots slots slots') (hvalid : AllValid slots)
    (hj : slots[j]? = some slot) (hj' : slots'[j]? = some slot') (hdead : slot.isLive = false)
    : slot'.view = slot.view := by
  have hentry : slot.view.entry = none := by
    have := (hvalid.getElem? hj).entry
    rw [hdead] at this
    exact Option.isSome_eq_false_iff.mp this |> Option.isNone_iff_eq_none.mp
  have := h.marked.getElem?_eq_of_not_live (by rw [views_getElem?, hj, Option.map_some]) hentry
  rw [views_getElem?, hj', Option.map_some, Option.some.injEq] at this
  exact this

end MarkedSlots

theorem passed_setCollision (h : AllValid slots) (hj : slots[j]? = some slot) (hlive : slot.isLive)
    : Passed (views (slots.set j slot.setCollision)) j := by
  have hslot := h.getElem? hj
  have hviews : (views slots)[j]? = some slot.view := by
    rw [views_getElem?, hj, Option.map_some]
  rw [views_set, hslot.view_setCollision hlive]
  refine ⟨_, Lists.getElem?_set_eq hviews _, ?_⟩
  have hentry := hslot.entry
  rw [hlive] at hentry
  cases hview : slot.view with
  | free =>
    rw [hview] at hentry
    contradiction
  | removed =>
    rw [hview] at hentry
    contradiction
  | live => rfl

end Slots

section FindNonLive

variable {T : Type} {t : HashTable T} {kh : HashNumber}

def NonLiveAt (shift : Nat) (kh : HashNumber) (slots : List (EntrySlot T))
    (found : Nat × List (EntrySlot T)) : Prop :=
  MarkedSlots slots found.2 ∧ Reached (views found.2) (keyPath shift kh) found.1
    ∧ ∃ slot, found.2[found.1]? = some slot ∧ slot.isLive = false

theorem NonLiveAt.trans {shift : Nat} {slots slots' : List (EntrySlot T)}
    {found : Nat × List (EntrySlot T)} (h : MarkedSlots slots slots')
    (hfound : NonLiveAt shift kh slots' found) : NonLiveAt shift kh slots found :=
  ⟨h.trans hfound.1, hfound.2⟩

theorem getElem?_keyPath {slots : List (EntrySlot T)} {shift : Nat}
    (hlength : slots.length = 2 ^ (kHashNumberBits - shift)) (kh : HashNumber) (i : Nat)
    : ∃ slot, slots[keyPath shift kh i]? = some slot := by
  have := keyPath_lt shift kh i
  rw [← hlength] at this
  exact ⟨_, List.getElem?_eq_getElem this⟩

theorem reached_succ {slots : List (Slot (HashNumber × T))} {path : Nat → Nat}
    (h : ∀ i < n, Passed slots (path i)) (hn : Passed slots (path n))
    : ∀ i < n + 1, Passed slots (path i) := by
  intro i hi
  rcases Nat.lt_succ_iff_lt_or_eq.mp hi with hi | rfl
  . exact h i hi
  . exact hn

theorem findNonLiveLoop_spec (hshift : ShiftInRange t.mHashShift)
    : ∀ {rounds n : Nat} {slots : List (EntrySlot T)} {h1 : HashNumber} {slot : EntrySlot T},
      AllValid slots → slots.length = 2 ^ (kHashNumberBits - t.mHashShift)
      → h1.toNat = keyPath t.mHashShift kh n
      → slots[h1.toNat]? = some slot → slot.isLive
      → (∀ i < n, Passed (views slots) (keyPath t.mHashShift kh i))
      → n < m → m ≤ n + rounds
      → (∃ last, slots[keyPath t.mHashShift kh m]? = some last ∧ last.isLive = false)
      → ∃ found, findNonLiveLoop (t.hash2 kh) rounds slots h1 = some found ∧ NonLiveAt t.mHashShift kh slots found := by
  intro rounds
  induction rounds with
  | zero =>
    intro n slots h1 slot _ _ _ _ _ _ hlt hle
    omega
  | succ rounds ih =>
    intro n slots h1 slot hvalid hlength hh1 hslot hlive hpassed hlt hle hlast
    have hmarked := MarkedSlots.setCollision hvalid hslot hlive
    have hnext := applyDoubleHash_toNat hshift hh1
    have hpassed' : ∀ i < n + 1, Passed (views (slots.set h1.toNat slot.setCollision)) (keyPath t.mHashShift kh i) := by
      apply reached_succ
      . exact fun i hi => hmarked.marked.passed (hpassed i hi)
      . rw [← hh1]
        exact passed_setCollision hvalid hslot hlive
    obtain ⟨next, hnextslot⟩ := getElem?_keyPath (hmarked.length.trans hlength) kh (n + 1)
    unfold findNonLiveLoop
    simp only [hslot, some_bind, hnext, hnextslot]
    cases hnextlive : next.isLive with
    | false =>
      refine ⟨_, rfl, hmarked, ⟨n + 1, rfl, hpassed'⟩, next, hnextslot, hnextlive⟩
    | true =>
      obtain ⟨last, hlastslot, hdead⟩ := hlast
      obtain ⟨last', hlast'⟩ := hmarked.exists_slot hlastslot
      have hdead' : last'.isLive = false := by
        have hview := hmarked.view_eq_of_not_live hvalid hlastslot hlast' hdead
        rw [← (hmarked.valid.getElem? hlast').entry, hview, (hvalid.getElem? hlastslot).entry, hdead]
      have hne : n + 1 ≠ m := by
        rintro rfl
        rw [hnextslot, Option.some.injEq] at hlast'
        subst hlast'
        rw [hdead'] at hnextlive
        contradiction
      obtain ⟨found, hfound, hspec⟩ := ih hmarked.valid (hmarked.length.trans hlength) hnext
        (by rw [hnext]; exact hnextslot) hnextlive hpassed' (by omega) (by omega) ⟨last', hlast', hdead'⟩
      exact ⟨found, hfound, hspec.trans hmarked⟩

theorem exists_keyPath_of_getElem? (hshift : ShiftInRange t.mHashShift)
    {slots : List (EntrySlot T)} (hlength : slots.length = 2 ^ (kHashNumberBits - t.mHashShift))
    {slot : EntrySlot T} (hj : slots[j]? = some slot) (kh : HashNumber)
    : ∃ m ≤ slots.length, keyPath t.mHashShift kh m = j := by
  obtain ⟨hlt, -⟩ := List.getElem?_eq_some_iff.mp hj
  rw [hlength] at hlt ⊢
  obtain ⟨m, hm, hpath⟩ := exists_keyPath hshift kh hlt
  exact ⟨m, Nat.le_of_lt hm, hpath⟩

theorem findNonLiveSlot_spec (hshift : ShiftInRange t.mHashShift) (hvalid : AllValid t.slots)
    (hlength : t.slots.length = 2 ^ (kHashNumberBits - t.mHashShift)) (kh : HashNumber)
    (hdead : ∃ (j : Nat) (slot : EntrySlot T), t.slots[j]? = some slot ∧ slot.isLive = false)
    : ∃ found, t.findNonLiveSlot kh = some found ∧ NonLiveAt t.mHashShift kh t.slots found := by
  obtain ⟨j, last, hj, hlast⟩ := hdead
  obtain ⟨m, hm, hpath⟩ := exists_keyPath_of_getElem? hshift hlength hj kh
  have hh1 := hash1_toNat hshift kh
  obtain ⟨slot, hslot⟩ := getElem?_keyPath hlength kh 0
  unfold findNonLiveSlot
  simp only [hh1, hslot, some_bind]
  cases hlive : slot.isLive with
  | false =>
    refine ⟨_, rfl, MarkedSlots.refl hvalid, ⟨0, rfl, ?_⟩, slot, hslot, hlive⟩
    exact fun i hi => absurd hi (Nat.not_lt_zero i)
  | true =>
    have hne : m ≠ 0 := by
      rintro rfl
      rw [hpath, hj, Option.some.injEq] at hslot
      subst hslot
      rw [hlast] at hlive
      contradiction
    refine findNonLiveLoop_spec hshift hvalid hlength hh1 ?_ hlive ?_ (Nat.pos_of_ne_zero hne) ?_ ?_
    . rw [hh1]
      exact hslot
    . exact fun i hi => absurd hi (Nat.not_lt_zero i)
    . rw [Nat.zero_add]
      exact hm
    . exact ⟨last, by rw [hpath]; exact hj, hlast⟩

end FindNonLive

section LookupSlot

variable {T Key Lookup : Type} {p : HashPolicy T Key Lookup} {t : HashTable T} {kh : HashNumber}
variable {l : Lookup} {reason : LookupReason}

def Misses (p : HashPolicy T Key Lookup) (kh : HashNumber) (l : Lookup) (slots : List (EntrySlot T))
    (j : Nat) : Prop :=
  ∃ slot, slots[j]? = some slot ∧ slot.isFree = false ∧ slotMatches p slot kh l = false

def NotFound (p : HashPolicy T Key Lookup) (shift : Nat) (kh : HashNumber) (l : Lookup)
    (slots : List (EntrySlot T)) : Prop :=
  ∃ m, (∀ i < m, Misses p kh l slots (keyPath shift kh i))
    ∧ ∃ slot, slots[keyPath shift kh m]? = some slot ∧ slot.isFree = true

inductive Found (p : HashPolicy T Key Lookup) (reason : LookupReason) (shift : Nat) (kh : HashNumber)
    (l : Lookup) (slots : List (EntrySlot T)) (found : Nat × List (EntrySlot T)) : Prop where
  | hit (slot : EntrySlot T)
    : found.2[found.1]? = some slot → slotMatches p slot kh l = true → Found p reason shift kh l slots found
  | miss (slot : EntrySlot T)
    : found.2[found.1]? = some slot → slot.isLive = false → NotFound p shift kh l slots
      → (reason = .ForAdd → Reached (views found.2) (keyPath shift kh) found.1)
      → Found p reason shift kh l slots found

theorem isFree_setCollision (slot : EntrySlot T) : slot.setCollision.isFree = false := by
  rw [← Bool.not_eq_true, isFree_iff]
  unfold setCollision
  simp only []
  rw [toNat_or_collision]
  omega

theorem slotMatches_setCollision (p : HashPolicy T Key Lookup) (slot : EntrySlot T) (kh : HashNumber)
    (l : Lookup) : slotMatches p slot.setCollision kh l = slotMatches p slot kh l := by
  have hhash : (slot.mKeyHash ||| sCollisionBit) &&& ~~~sCollisionBit = slot.mKeyHash &&& ~~~sCollisionBit := by
    rw [← BitVec.toNat_inj, toNat_and_not_collision, toNat_and_not_collision, toNat_or_collision]
    omega
  unfold slotMatches matchHash setCollision
  simp [hhash]

variable {slots : List (EntrySlot T)} {slot : EntrySlot T}

theorem Misses.setCollision_iff {i j : Nat}
    (hj : slots[j]? = some slot) (hfree : slot.isFree = false)
    : Misses p kh l (slots.set j slot.setCollision) i ↔ Misses p kh l slots i := by
  unfold Misses
  by_cases heq : j = i
  . subst heq
    rw [Lists.getElem?_set_eq hj, hj]
    constructor
    . rintro ⟨s, hs, -, hmatch⟩
      rw [Option.some.injEq] at hs
      subst hs
      rw [slotMatches_setCollision] at hmatch
      exact ⟨slot, rfl, hfree, hmatch⟩
    rintro ⟨s, hs, -, hmatch⟩
    rw [Option.some.injEq] at hs
    subst hs
    rw [← slotMatches_setCollision] at hmatch
    exact ⟨_, rfl, isFree_setCollision slot, hmatch⟩
  . rw [List.getElem?_set_ne heq]

theorem Misses.isLive (h : Misses p kh l slots j) (hj : slots[j]? = some slot) (hremoved : slot.isRemoved = false)
    : slot.isLive = true := by
  obtain ⟨slot', hslot', hfree, -⟩ := h
  rw [hj, Option.some.injEq] at hslot'
  subst hslot'
  rw [← Bool.not_eq_true, isRemoved_iff] at hremoved
  rw [← Bool.not_eq_true, isFree_iff] at hfree
  rw [isLive_iff]
  omega

-- What is known when the slots before `n` on the path have been looked at.
def FirstRemoved (reason : LookupReason) (shift : Nat) (kh : HashNumber) (n : Nat)
    (slots : List (EntrySlot T)) : Option Nat → Prop
  | none => reason = .ForAdd → ∀ i < n, Passed (views slots) (keyPath shift kh i)
  | some r => Reached (views slots) (keyPath shift kh) r
    ∧ ∃ slot, slots[r]? = some slot ∧ slot.isRemoved = true

theorem isLive_of_isRemoved (h : slot.isRemoved = true) : slot.isLive = false := by
  rw [← Bool.not_eq_true, isLive_iff]
  rw [isRemoved_iff] at h
  omega

theorem isLive_of_isFree (h : slot.isFree = true) : slot.isLive = false := by
  rw [← Bool.not_eq_true, isLive_iff]
  rw [isFree_iff] at h
  omega

theorem firstRemoved_step {shift n : Nat}
    (hvalid : AllValid slots) (hfr : FirstRemoved reason shift kh n slots fr)
    (hslot : slots[keyPath shift kh n]? = some slot) (hmiss : Misses p kh l slots (keyPath shift kh n))
    : let isFirst := decide (reason = .ForAdd) && fr.isNone
      let fr' := if isFirst && slot.isRemoved then some (keyPath shift kh n) else fr
      let slots' := if isFirst && !slot.isRemoved then slots.set (keyPath shift kh n) slot.setCollision
        else slots
      MarkedSlots slots slots' ∧ FirstRemoved reason shift kh (n + 1) slots' fr'
        ∧ ∀ j, (Misses p kh l slots' j ↔ Misses p kh l slots j)
          ∧ ∀ s, s.isFree = true → (slots'[j]? = some s ↔ slots[j]? = some s) := by
  have hsame : ∀ j, (Misses p kh l slots j ↔ Misses p kh l slots j)
      ∧ ∀ s, s.isFree = true → (slots[j]? = some s ↔ slots[j]? = some s) :=
    fun j => ⟨Iff.rfl, fun s _ => Iff.rfl⟩
  cases fr with
  | some r =>
    rw [Option.isNone_some, Bool.and_false]
    exact ⟨MarkedSlots.refl hvalid, hfr, hsame⟩
  | none =>
    cases reason with
    | ForNonAdd => exact ⟨MarkedSlots.refl hvalid, nofun, hsame⟩
    | ForAdd =>
      cases hremoved : slot.isRemoved with
      | true =>
        exact ⟨MarkedSlots.refl hvalid, ⟨⟨n, rfl, hfr rfl⟩, slot, hslot, hremoved⟩, hsame⟩
      | false =>
        have hlive := hmiss.isLive hslot hremoved
        have hmarked := MarkedSlots.setCollision hvalid hslot hlive
        have hfree : slot.isFree = false := by
          rw [← Bool.not_eq_true]
          intro hfree
          rw [isLive_of_isFree hfree] at hlive
          contradiction
        refine ⟨hmarked, fun _ => ?_, fun j => ⟨Misses.setCollision_iff hslot hfree, fun s hs => ?_⟩⟩
        . apply reached_succ
          . exact fun i hi => hmarked.marked.passed (hfr rfl i hi)
          . exact passed_setCollision hvalid hslot hlive
        by_cases heq : keyPath shift kh n = j
        . subst heq
          simp only [decide_true, Option.isNone_none, Bool.and_self, Bool.not_false, if_true]
          rw [Lists.getElem?_set_eq hslot, hslot]
          constructor
          . intro h
            rw [Option.some.injEq] at h
            subst h
            rw [isFree_setCollision] at hs
            contradiction
          intro h
          rw [Option.some.injEq] at h
          subst h
          rw [hfree] at hs
          contradiction
        . simp only [decide_true, Option.isNone_none, Bool.and_self, Bool.not_false, if_true]
          rw [List.getElem?_set_ne heq]

theorem NotFound.of_iff {shift : Nat} (h : ∀ j, (Misses p kh l slots' j ↔ Misses p kh l slots j)
      ∧ ∀ s, s.isFree = true → (slots'[j]? = some s ↔ slots[j]? = some s))
    (hnot : NotFound p shift kh l slots') : NotFound p shift kh l slots := by
  obtain ⟨m, hmiss, slot, hslot, hfree⟩ := hnot
  exact ⟨m, fun i hi => (h _).1.mp (hmiss i hi), slot, ((h _).2 slot hfree).mp hslot, hfree⟩

theorem lookupLoop_spec (hshift : ShiftInRange t.mHashShift)
    : ∀ {rounds n : Nat} {slots : List (EntrySlot T)} {h1 : HashNumber} {fr : Option Nat},
      AllValid slots → slots.length = 2 ^ (kHashNumberBits - t.mHashShift)
      → h1.toNat = keyPath t.mHashShift kh n
      → (∀ i < n + 1, Misses p kh l slots (keyPath t.mHashShift kh i))
      → FirstRemoved reason t.mHashShift kh n slots fr
      → n < m → m ≤ n + rounds
      → (∃ last, slots[keyPath t.mHashShift kh m]? = some last ∧ last.isFree = true)
      → ∃ found, lookupLoop p reason l kh (t.hash2 kh) rounds slots h1 fr = some found
        ∧ MarkedSlots slots found.2 ∧ Found p reason t.mHashShift kh l slots found := by
  intro rounds
  induction rounds with
  | zero =>
    intro n slots h1 fr _ _ _ _ _ hlt hle
    omega
  | succ rounds ih =>
    intro n slots h1 fr hvalid hlength hh1 hmiss hfr hlt hle hlast
    obtain ⟨slot, hslot⟩ := getElem?_keyPath hlength kh n
    have hnext := applyDoubleHash_toNat hshift hh1
    unfold lookupLoop
    simp only [hh1, hslot, some_bind]
    have hstep := firstRemoved_step hvalid hfr hslot (hmiss n (Nat.lt_succ_self n))
    simp only [] at hstep
    generalize (if (decide (reason = .ForAdd) && fr.isNone && slot.isRemoved) = true then
      some (keyPath t.mHashShift kh n) else fr) = fr' at hstep ⊢
    generalize (if (decide (reason = .ForAdd) && fr.isNone && !slot.isRemoved) = true then
      slots.set (keyPath t.mHashShift kh n) slot.setCollision else slots) = slots' at hstep ⊢
    obtain ⟨hmarked, hfr', hiff⟩ := hstep
    obtain ⟨next, hnextslot⟩ := getElem?_keyPath (hmarked.length.trans hlength) kh (n + 1)
    simp only [hnext, hnextslot, some_bind]
    cases hfree : next.isFree with
    | true =>
      have hnot : NotFound p t.mHashShift kh l slots' :=
        ⟨n + 1, fun i hi => (hiff _).1.mpr (hmiss i hi), next, hnextslot, hfree⟩
      refine ⟨_, rfl, hmarked, ?_⟩
      cases fr' with
      | none =>
        refine .miss next hnextslot (isLive_of_isFree hfree) (hnot.of_iff hiff) fun hreason => ?_
        exact ⟨n + 1, rfl, hfr' hreason⟩
      | some r =>
        obtain ⟨hreached, s, hs, hremoved⟩ := hfr'
        exact .miss s hs (isLive_of_isRemoved hremoved) (hnot.of_iff hiff) fun _ => hreached
    | false =>
      cases hmatch : slotMatches p next kh l with
      | true => exact ⟨_, rfl, hmarked, .hit next hnextslot hmatch⟩
      | false =>
        obtain ⟨last, hlast, hlastfree⟩ := hlast
        have hlast' := ((hiff _).2 last hlastfree).mpr hlast
        have hne : n + 1 ≠ m := by
          rintro rfl
          rw [hnextslot, Option.some.injEq] at hlast'
          subst hlast'
          rw [hlastfree] at hfree
          contradiction
        have hmiss' : ∀ i < n + 1 + 1, Misses p kh l slots' (keyPath t.mHashShift kh i) := by
          intro i hi
          rcases Nat.lt_succ_iff_lt_or_eq.mp hi with hi | rfl
          . exact (hiff _).1.mpr (hmiss i hi)
          . exact ⟨next, hnextslot, hfree, hmatch⟩
        obtain ⟨found, hfound, hmarked', hspec⟩ := ih hmarked.valid (hmarked.length.trans hlength) hnext
          hmiss' hfr' (by omega) (by omega) ⟨last, hlast', hlastfree⟩
        refine ⟨found, hfound, hmarked.trans hmarked', ?_⟩
        cases hspec with
        | hit s hs hmatch => exact .hit s hs hmatch
        | miss s hs hdead hnot hreached => exact .miss s hs hdead (hnot.of_iff hiff) hreached

theorem lookupSlot_spec (p : HashPolicy T Key Lookup) (reason : LookupReason) (l : Lookup)
    (hshift : ShiftInRange t.mHashShift) (hvalid : AllValid t.slots)
    (hlength : t.slots.length = 2 ^ (kHashNumberBits - t.mHashShift)) (kh : HashNumber)
    (hfree : ∃ (j : Nat) (slot : EntrySlot T), t.slots[j]? = some slot ∧ slot.isFree = true)
    : ∃ found, lookupSlot p reason t l kh = some found ∧ MarkedSlots t.slots found.2
      ∧ Found p reason t.mHashShift kh l t.slots found := by
  obtain ⟨j, last, hj, hlast⟩ := hfree
  obtain ⟨m, hm, hpath⟩ := exists_keyPath_of_getElem? hshift hlength hj kh
  have hh1 := hash1_toNat hshift kh
  obtain ⟨slot, hslot⟩ := getElem?_keyPath hlength kh 0
  have hnone : ∀ i < 0, Misses p kh l t.slots (keyPath t.mHashShift kh i) :=
    fun i hi => absurd hi (Nat.not_lt_zero i)
  unfold lookupSlot
  simp only [hh1, hslot, some_bind]
  cases hslotfree : slot.isFree with
  | true =>
    refine ⟨_, rfl, MarkedSlots.refl hvalid, ?_⟩
    refine .miss slot hslot (isLive_of_isFree hslotfree) ⟨0, hnone, slot, hslot, hslotfree⟩ fun _ => ?_
    exact ⟨0, rfl, fun i hi => absurd hi (Nat.not_lt_zero i)⟩
  | false =>
    cases hmatch : slotMatches p slot kh l with
    | true => exact ⟨_, rfl, MarkedSlots.refl hvalid, .hit slot hslot hmatch⟩
    | false =>
      have hne : m ≠ 0 := by
        rintro rfl
        rw [hpath, hj, Option.some.injEq] at hslot
        subst hslot
        rw [hlast] at hslotfree
        contradiction
      refine lookupLoop_spec hshift hvalid hlength hh1 ?_ ?_ (Nat.pos_of_ne_zero hne) ?_ ?_
      . intro i hi
        obtain rfl := Nat.lt_one_iff.mp hi
        exact ⟨slot, hslot, hslotfree, hmatch⟩
      . exact fun _ i hi => absurd hi (Nat.not_lt_zero i)
      . rw [Nat.zero_add]
        exact hm
      . exact ⟨last, by rw [hpath]; exact hj, hlast⟩

end LookupSlot

section SlotsOk

variable {T : Type} {shift : Nat} {slots slots' : List (EntrySlot T)} {kh : HashNumber} {e : T}
variable {j : Nat} {old : EntrySlot T}

def KeptHash (kh : HashNumber) : Prop := 2 ≤ kh.toNat ∧ kh.toNat % 2 = 0

structure SlotsOk (shift : Nat) (slots : List (EntrySlot T)) : Prop where
  valid : AllValid slots
  length : slots.length = 2 ^ (kHashNumberBits - shift)
  reachable : Reachable (entryPath shift) (views slots)

def hashedEntries (slots : List (EntrySlot T)) : List (HashNumber × T) := entries (views slots)

theorem view_entry_of_not_live (h : old.Valid) (hdead : old.isLive = false) : old.view.entry = none := by
  have := h.entry
  rw [hdead] at this
  exact Option.isNone_iff_eq_none.mp (Option.isSome_eq_false_iff.mp this)

theorem SlotsOk.marked (h : SlotsOk shift slots) (hmarked : MarkedSlots slots slots')
    : SlotsOk shift slots' :=
  ⟨hmarked.valid, hmarked.length.trans h.length, hmarked.marked.reachable h.reachable⟩

theorem MarkedSlots.hashedEntries_eq (h : MarkedSlots slots slots')
    : hashedEntries slots' = hashedEntries slots :=
  h.marked.entries_eq

theorem view_setLive_ite (hkh : KeptHash kh) (removed : Bool) (e : T)
    : (setLive (if removed then kh ||| sCollisionBit else kh) e).view = .live removed (kh, e) := by
  cases removed with
  | true => exact view_setLive_collision hkh.2
  | false => exact view_setLive hkh.2

theorem valid_setLive_ite (hkh : KeptHash kh) (removed : Bool) (e : T)
    : (setLive (if removed then kh ||| sCollisionBit else kh) e).Valid := by
  apply valid_setLive
  unfold KeptHash at hkh
  cases removed with
  | true =>
    simp only [if_true]
    rw [toNat_or_collision]
    omega
  | false => exact hkh.1

theorem SlotsOk.insert (h : SlotsOk shift slots) (hj : slots[j]? = some old)
    (hdead : old.isLive = false) (hreached : Reached (views slots) (keyPath shift kh) j) (hkh : KeptHash kh) (e : T)
    : SlotsOk shift (slots.set j (.setLive (if old.isRemoved then kh ||| sCollisionBit else kh) e)) := by
  have hviews : (views slots)[j]? = some old.view := by
    rw [views_getElem?, hj, Option.map_some]
  have hold := h.valid.getElem? hj
  constructor
  . exact h.valid.set (valid_setLive_ite hkh _ e)
  . rw [length_set, h.length]
  . rw [views_set, view_setLive_ite hkh, ← hold.isRemoved_view]
    exact h.reachable.insert hviews (view_entry_of_not_live hold hdead) hreached

theorem hashedEntries_insert (hvalid : AllValid slots) (hj : slots[j]? = some old)
    (hdead : old.isLive = false) (hkh : KeptHash kh) (e : T)
    : (hashedEntries (slots.set j (.setLive (if old.isRemoved then kh ||| sCollisionBit else kh) e))).Perm
      ((kh, e) :: hashedEntries slots) := by
  have hviews : (views slots)[j]? = some old.view := by
    rw [views_getElem?, hj, Option.map_some]
  have := entries_set hviews (.live old.isRemoved (kh, e))
  rw [view_entry_of_not_live (hvalid.getElem? hj) hdead] at this
  unfold hashedEntries
  rw [views_set, view_setLive_ite hkh]
  exact this

theorem removedCount_insert (hvalid : AllValid slots) (hj : slots[j]? = some old) (hkh : KeptHash kh) (e : T)
    : removedCount (views (slots.set j (.setLive (if old.isRemoved then kh ||| sCollisionBit else kh) e)))
        + (if old.isRemoved then 1 else 0)
      = removedCount (views slots) := by
  have hviews : (views slots)[j]? = some old.view := by
    rw [views_getElem?, hj, Option.map_some]
  have := removedCount_set hviews (.live old.isRemoved (kh, e))
  rw [(hvalid.getElem? hj).isRemoved_view] at this
  rw [views_set, view_setLive_ite hkh]
  exact this

theorem view_eq_of_live (h : old.Valid) (hlive : old.isLive = true)
    : ∃ e, old.mEntry = some e ∧ old.view = .live old.hasCollision (old.getKeyHash, e) := by
  unfold EntrySlot.Valid at h
  rw [hlive] at h
  obtain ⟨e, he⟩ := Option.isSome_iff_exists.mp h.symm
  exact ⟨e, he, view_of_entry he⟩

theorem keptHash_getKeyHash (hlive : old.isLive = true) : KeptHash old.getKeyHash := by
  rw [isLive_iff] at hlive
  unfold KeptHash getKeyHash
  rw [toNat_and_not_collision]
  omega

def clearedSlot (slot : EntrySlot T) : EntrySlot T :=
  if slot.hasCollision then .removeLive else .clearLive

theorem SlotsOk.erase (h : SlotsOk shift slots) (hj : slots[j]? = some old) (hlive : old.isLive = true)
    : SlotsOk shift (slots.set j (clearedSlot old)) := by
  obtain ⟨e, -, hview⟩ := view_eq_of_live (h.valid.getElem? hj) hlive
  have hviews : (views slots)[j]? = some (.live old.hasCollision (old.getKeyHash, e)) := by
    rw [views_getElem?, hj, Option.map_some, hview]
  have herase := h.reachable.erase hviews
  constructor
  . apply h.valid.set
    unfold clearedSlot
    split
    . rfl
    . exact valid_free
  . rw [length_set, h.length]
  rw [views_set]
  unfold clearedSlot
  cases hc : old.hasCollision with
  | true =>
    rw [hc] at herase
    exact herase
  | false =>
    rw [hc] at herase
    exact herase

theorem hashedEntries_erase (hj : slots[j]? = some old) (he : old.mEntry = some e)
    : ((old.getKeyHash, e) :: hashedEntries (slots.set j (clearedSlot old))).Perm (hashedEntries slots) := by
  have hviews : (views slots)[j]? = some (.live old.hasCollision (old.getKeyHash, e)) := by
    rw [views_getElem?, hj, Option.map_some, view_of_entry he]
  have := entries_set hviews (clearedSlot old).view
  have hnone : (clearedSlot old).view.entry = none := by
    unfold clearedSlot
    split <;> rfl
  rw [hnone] at this
  unfold hashedEntries
  rw [views_set]
  exact this

theorem removedCount_erase (hj : slots[j]? = some old) (he : old.mEntry = some e)
    : removedCount (views (slots.set j (clearedSlot old)))
      = removedCount (views slots) + (if old.hasCollision then 1 else 0) := by
  have hviews : (views slots)[j]? = some (.live old.hasCollision (old.getKeyHash, e)) := by
    rw [views_getElem?, hj, Option.map_some, view_of_entry he]
  have := removedCount_set hviews (clearedSlot old).view
  rw [views_set]
  unfold clearedSlot at *
  cases hc : old.hasCollision with
  | true =>
    rw [hc] at this
    exact this
  | false =>
    rw [hc] at this
    exact this

end SlotsOk

section Rebuild

variable {T : Type} {t : HashTable T}

@[simp]
theorem slots_setSlots (t : HashTable T) (slots : List (EntrySlot T)) : (t.setSlots slots).slots = slots := rfl

@[simp]
theorem mHashShift_setSlots (t : HashTable T) (slots : List (EntrySlot T))
    : (t.setSlots slots).mHashShift = t.mHashShift :=
  rfl

theorem exists_not_live_slot {slots : List (EntrySlot T)} (hvalid : AllValid slots)
    (h : (hashedEntries slots).length < slots.length)
    : ∃ (j : Nat) (slot : EntrySlot T), slots[j]? = some slot ∧ slot.isLive = false := by
  unfold hashedEntries at h
  rw [← length_views] at h
  obtain ⟨j, view, hj, hentry⟩ := exists_not_live h
  rw [views_getElem?] at hj
  obtain ⟨slot, hslot, rfl⟩ := Option.map_eq_some_iff.mp hj
  refine ⟨j, slot, hslot, ?_⟩
  rw [← (hvalid.getElem? hslot).entry, hentry]
  rfl

theorem exists_free_slot {slots : List (EntrySlot T)} (hvalid : AllValid slots)
    (h : (hashedEntries slots).length + removedCount (views slots) < slots.length)
    : ∃ (j : Nat) (slot : EntrySlot T), slots[j]? = some slot ∧ slot.isFree = true := by
  unfold hashedEntries at h
  rw [← length_views] at h
  obtain ⟨j, hj⟩ := exists_free h
  rw [views_getElem?] at hj
  obtain ⟨slot, hslot, hview⟩ := Option.map_eq_some_iff.mp hj
  exact ⟨j, slot, hslot, (hvalid.getElem? hslot).isFree_iff_view.mpr hview⟩

theorem isRemoved_of_removedCount {slots : List (EntrySlot T)} {j : Nat} {slot : EntrySlot T}
    (hvalid : AllValid slots) (h : removedCount (views slots) = 0) (hj : slots[j]? = some slot)
    : slot.isRemoved = false := by
  unfold removedCount at h
  rw [countP_eq_zero] at h
  have := h slot.view (mem_map_of_mem (mem_of_getElem? hj))
  rw [(hvalid.getElem? hj).isRemoved_view] at this
  exact Bool.eq_false_iff.mpr this

theorem insert_spec {kh : HashNumber} (hshift : ShiftInRange t.mHashShift)
    (hok : SlotsOk t.mHashShift t.slots) (hroom : (hashedEntries t.slots).length < t.slots.length)
    (hremoved : removedCount (views t.slots) = 0) (hkh : KeptHash kh) (e : T)
    : ∃ i slots, t.findNonLiveSlot kh = some (i, slots) ∧ SlotsOk t.mHashShift (slots.set i (.setLive kh e))
      ∧ (hashedEntries (slots.set i (.setLive kh e))).Perm ((kh, e) :: hashedEntries t.slots)
      ∧ removedCount (views (slots.set i (.setLive kh e))) = 0 := by
  obtain ⟨⟨i, slots⟩, hfound, hmarked, hreached, old, hold, hdead⟩ :=
    findNonLiveSlot_spec hshift hok.valid hok.length kh (exists_not_live_slot hok.valid hroom)
  have hok' := hok.marked hmarked
  have hremoved' : removedCount (views slots) = 0 := hmarked.marked.removedCount_eq.trans hremoved
  have hfree := isRemoved_of_removedCount hok'.valid hremoved' hold
  have hinsert := hok'.insert hold hdead hreached hkh e
  have hentries := hashedEntries_insert hok'.valid hold hdead hkh e
  have hcount := removedCount_insert hok'.valid hold hkh e
  rw [hfree] at hinsert hentries hcount
  refine ⟨i, slots, hfound, hinsert, ?_, hcount.trans hremoved'⟩
  rw [← hmarked.hashedEntries_eq]
  exact hentries

theorem hashedEntries_cons (slot : EntrySlot T) (rest : List (EntrySlot T))
    : hashedEntries (slot :: rest) = (slot.mEntry.map (slot.getKeyHash, ·)).toList ++ hashedEntries rest := by
  have hentry : slot.view.entry = slot.mEntry.map (slot.getKeyHash, ·) := by
    unfold view
    cases slot.mEntry with
    | none =>
      simp only []
      split <;> rfl
    | some e => rfl
  unfold hashedEntries views entries
  rw [map_cons, filterMap_cons, hentry]
  cases slot.mEntry with
  | none => rfl
  | some e => rfl

theorem insertAll_spec
    : ∀ {source target : List (EntrySlot T)}, AllValid source → ShiftInRange t.mHashShift
      → SlotsOk t.mHashShift target → removedCount (views target) = 0
      → (hashedEntries source).length + (hashedEntries target).length ≤ target.length
      → ∃ slots, insertAll source (t.setSlots target) = some (t.setSlots slots)
        ∧ SlotsOk t.mHashShift slots ∧ removedCount (views slots) = 0
        ∧ (hashedEntries slots).Perm (hashedEntries source ++ hashedEntries target) := by
  intro source
  induction source with
  | nil =>
    intro target _ _ hok hremoved _
    exact ⟨target, rfl, hok, hremoved, List.Perm.refl _⟩
  | cons slot rest ih =>
    intro target hvalid hshift hok hremoved hroom
    have hrest : AllValid rest := fun s hs => hvalid s (mem_cons_of_mem _ hs)
    rw [hashedEntries_cons] at hroom ⊢
    unfold insertAll
    cases hlive : slot.isLive with
    | false =>
      have hnone : slot.mEntry = none := by
        have := hvalid slot mem_cons_self
        unfold EntrySlot.Valid at this
        rw [hlive] at this
        exact Option.isNone_iff_eq_none.mp (Option.isSome_eq_false_iff.mp this.symm)
      rw [hnone] at hroom ⊢
      exact ih hrest hshift hok hremoved hroom
    | true =>
      obtain ⟨e, he, -⟩ := view_eq_of_live (hvalid slot mem_cons_self) hlive
      have hkh := keptHash_getKeyHash hlive
      rw [he] at hroom ⊢
      simp only [Option.map_some, Option.toList_some, length_append, length_singleton] at hroom
      obtain ⟨i, slots, hfound, hok', hentries, hremoved'⟩ := insert_spec (t := t.setSlots target) hshift
        hok (by rw [slots_setSlots]; omega) hremoved hkh e
      rw [slots_setSlots] at hentries
      have hlength : (hashedEntries (slots.set i (.setLive slot.getKeyHash e))).length
          = (hashedEntries target).length + 1 := by
        rw [hentries.length_eq, length_cons]
      obtain ⟨final, hfinal, hfinalOk, hfinalRemoved, hfinalEntries⟩ := ih hrest hshift hok' hremoved' (by
        rw [hlength, hok'.length, mHashShift_setSlots, ← hok.length]
        omega)
      refine ⟨final, ?_, hfinalOk, hfinalRemoved, ?_⟩
      . simp only [hfound, some_bind]
        exact hfinal
      apply hfinalEntries.trans
      apply (hentries.append_left _).trans
      rw [Option.map_some, Option.toList_some, singleton_append, cons_append]
      exact perm_middle

theorem CeilingLog2_two_pow (a : Nat) : CeilingLog2 (2 ^ a) = a := by
  unfold CeilingLog2
  cases a with
  | zero => rfl
  | succ a =>
    have hpos := Nat.two_pow_pos a
    have hsucc := Nat.pow_succ 2 a
    rw [if_neg (by omega)]
    congr 1
    rw [Nat.log2_eq_iff (by omega)]
    omega

theorem le_RoundUpPow2 (n : Nat) : n ≤ RoundUpPow2 n := by
  unfold RoundUpPow2 CeilingLog2
  split
  next hle => exact hle
  next hgt =>
    have := (Nat.log2_eq_iff (n := n - 1) (by omega)).mp rfl
    omega

theorem RoundUpPow2_le (h : n ≤ 2 ^ a) : RoundUpPow2 n ≤ 2 ^ a := by
  unfold RoundUpPow2 CeilingLog2
  apply Nat.pow_le_pow_right Nat.two_pos
  split
  next => exact Nat.zero_le a
  next hgt =>
    apply (Nat.log2_lt (by omega)).mpr
    omega

def IsCapacity (capacity : Nat) : Prop := ∃ shift, ShiftInRange shift ∧ capacity = 2 ^ (kHashNumberBits - shift)

theorem isCapacity_two_pow (hmin : 2 ≤ a) (hmax : 2 ^ a ≤ sMaxCapacity) : IsCapacity (2 ^ a) := by
  have : a ≤ 30 := (Nat.pow_le_pow_iff_right (by omega)).mp hmax
  unfold IsCapacity ShiftInRange kHashNumberBits
  exact ⟨32 - a, by omega, by congr 1; omega⟩

theorem ceilingLog2_shift {shift : Nat} (h : ShiftInRange shift)
    : kHashNumberBits - CeilingLog2 (2 ^ (kHashNumberBits - shift)) = shift := by
  rw [CeilingLog2_two_pow]
  unfold ShiftInRange at h
  unfold kHashNumberBits
  omega

theorem bestCapacity_load (n : Nat) : 4 * n ≤ 3 * bestCapacity n := by
  unfold bestCapacity sAlphaDenominator sMaxAlphaNumerator sMinCapacity
  simp only []
  have := le_RoundUpPow2 ((n * 4 + 3 - 1) / 3)
  split <;> omega

theorem isCapacity_bestCapacity (h : bestCapacity n ≤ sMaxCapacity)
    : IsCapacity (bestCapacity n) := by
  unfold bestCapacity at h ⊢
  simp only [] at h ⊢
  split
  next => exact isCapacity_two_pow (a := 2) (by omega) (by decide)
  next hge =>
    rw [if_neg hge] at h
    refine isCapacity_two_pow ?_ h
    by_contra hlt
    have hle := le_RoundUpPow2 ((n * sAlphaDenominator + sMaxAlphaNumerator - 1) / sMaxAlphaNumerator)
    have hpow : RoundUpPow2 ((n * sAlphaDenominator + sMaxAlphaNumerator - 1) / sMaxAlphaNumerator) ≤ 2 ^ 1 :=
      Nat.pow_le_pow_right Nat.two_pos (by omega)
    unfold sMinCapacity at hge
    omega

theorem bestCapacity_le (h : n ≤ sMaxInit) : bestCapacity n ≤ sMaxCapacity := by
  unfold bestCapacity
  simp only []
  split
  next => decide
  next =>
    apply RoundUpPow2_le
    unfold sMaxInit at h
    unfold sAlphaDenominator sMaxAlphaNumerator
    omega

structure Counted (t : HashTable T) : Prop where
  shift : ShiftInRange t.mHashShift
  slots : t.mTable.isSome → SlotsOk t.mHashShift t.slots
  entryCount : (hashedEntries t.slots).length = t.mEntryCount
  removedCount : OpenAddressing.removedCount (views t.slots) = t.mRemovedCount
  entryLoad : 4 * t.mEntryCount ≤ 3 * t.capacity

def Loaded (t : HashTable T) : Prop := 4 * (t.mEntryCount + t.mRemovedCount) ≤ 3 * t.capacity

namespace Counted

theorem valid (h : Counted t) : AllValid t.slots := by
  unfold HashTable.slots
  cases ht : t.mTable with
  | none => exact nofun
  | some slots =>
    have := (h.slots (by rw [ht]; rfl)).valid
    unfold HashTable.slots at this
    rw [ht] at this
    exact this

theorem capacity_eq (h : Counted t) : t.capacity = t.slots.length := by
  unfold capacity rawCapacity
  cases ht : t.mTable with
  | none =>
    unfold HashTable.slots
    rw [ht]
    rfl
  | some slots =>
    rw [if_pos (by rfl), (h.slots (by rw [ht]; rfl)).length]

end Counted

structure Rebuilt (t t' : HashTable T) : Prop where
  counted : Counted t'
  entries : (hashedEntries t'.slots).Perm (hashedEntries t.slots)
  mEntryCount : t'.mEntryCount = t.mEntryCount
  mRemovedCount : t'.mRemovedCount = 0
  mGen : t'.mGen = t.mGen + 1
  mMutationCount : t'.mMutationCount = t.mMutationCount

theorem slotsOk_replicate {shift : Nat}
    : SlotsOk shift (List.replicate (2 ^ (kHashNumberBits - shift)) (.free : EntrySlot T)) := by
  constructor
  . intro slot hslot
    rw [eq_of_mem_replicate hslot]
    exact valid_free
  . rw [length_replicate]
  . unfold views
    rw [map_replicate]
    exact Reachable.replicate _ _

theorem hashedEntries_replicate (size : Nat)
    : hashedEntries (List.replicate size (.free : EntrySlot T)) = [] := by
  unfold hashedEntries views
  rw [map_replicate]
  exact entries_replicate size

theorem views_removedCount_replicate (size : Nat)
    : OpenAddressing.removedCount (views (List.replicate size (.free : EntrySlot T))) = 0 := by
  unfold views
  rw [map_replicate]
  exact removedCount_replicate size

theorem changeTableSize_spec (h : Counted t) (hcap : IsCapacity newCapacity)
    (hload : 4 * t.mEntryCount ≤ 3 * newCapacity) (mem : List Bool)
    : (∃ t', t.changeTableSize newCapacity mem = some (.Rehashed, t') ∧ Rebuilt t t'
        ∧ t'.mTable.isSome ∧ t'.capacity = newCapacity)
      ∨ t.changeTableSize newCapacity mem = some (.RehashFailed, t) ∧ mem.head?.getD false = false := by
  obtain ⟨shift, hshift, rfl⟩ := hcap
  have hpow : 2 ^ (kHashNumberBits - shift) ≤ sMaxCapacity := by
    unfold sMaxCapacity
    apply Nat.pow_le_pow_right Nat.two_pos
    unfold ShiftInRange at hshift
    unfold kHashNumberBits
    omega
  unfold changeTableSize
  rw [if_neg (by omega), ceilingLog2_shift hshift]
  cases hmem : mem.head?.getD false with
  | false => exact .inr ⟨rfl, rfl⟩
  | true =>
    left
    rw [if_pos rfl]
    obtain ⟨slots, hinsert, hok, hremoved, hentries⟩ := @insertAll_spec _ {
        t with mHashShift := shift, mRemovedCount := 0, mGen := t.mGen + 1 } _
      (List.replicate (2 ^ (kHashNumberBits - shift)) .free) h.valid hshift slotsOk_replicate
      (views_removedCount_replicate _) (by
        rw [h.entryCount, hashedEntries_replicate, length_replicate, length_nil]
        omega)
    unfold setSlots at hinsert
    simp only [hinsert, some_bind]
    rw [hashedEntries_replicate, append_nil] at hentries
    refine ⟨_, rfl, ?_, rfl, rfl⟩
    constructor
    . constructor
      . exact hshift
      . exact fun _ => hok
      . exact hentries.length_eq.trans h.entryCount
      . exact hremoved
      . exact hload
    . exact hentries
    . rfl
    . rfl
    . rfl
    . rfl

end Rebuild

section RehashInPlace

variable {T : Type} {t : HashTable T} {kh : HashNumber} {slots : List (EntrySlot T)}

-- During the rehash the collision bit is set on the entries that are where they belong.
def isPending (slot : EntrySlot T) : Bool := slot.isLive && !slot.hasCollision

structure Placing (shift : Nat) (start slots : List (EntrySlot T)) : Prop where
  valid : AllValid slots
  length : slots.length = 2 ^ (kHashNumberBits - shift)
  removedCount : OpenAddressing.removedCount (views slots) = 0
  entries : (hashedEntries slots).Perm (hashedEntries start)
  placed : ∀ j x, (views slots)[j]? = some (.live true x) → Reached (views slots) (entryPath shift x) j

theorem findTarget_spec (hshift : ShiftInRange t.mHashShift)
    (hlength : slots.length = 2 ^ (kHashNumberBits - t.mHashShift))
    : ∀ {rounds n : Nat} {h1 : HashNumber}, h1.toNat = keyPath t.mHashShift kh n
      → (∀ i < n, ∃ slot, slots[keyPath t.mHashShift kh i]? = some slot ∧ slot.hasCollision = true)
      → n ≤ m → m < n + rounds
      → (∃ last, slots[keyPath t.mHashShift kh m]? = some last ∧ last.hasCollision = false)
      → ∃ n', findTarget (t.hash2 kh) rounds slots h1 = some (keyPath t.mHashShift kh n')
        ∧ (∀ i < n', ∃ slot, slots[keyPath t.mHashShift kh i]? = some slot ∧ slot.hasCollision = true)
        ∧ ∃ tgt, slots[keyPath t.mHashShift kh n']? = some tgt ∧ tgt.hasCollision = false := by
  intro rounds
  induction rounds with
  | zero =>
    intro n h1 _ _ hle hlt
    omega
  | succ rounds ih =>
    intro n h1 hh1 hbefore hle hlt hlast
    obtain ⟨tgt, htgt⟩ := getElem?_keyPath hlength kh n
    unfold findTarget
    simp only [hh1, htgt, some_bind]
    cases hcollision : tgt.hasCollision with
    | false => exact ⟨n, rfl, hbefore, tgt, htgt, hcollision⟩
    | true =>
      obtain ⟨last, hlastslot, hlastcollision⟩ := hlast
      have hne : n ≠ m := by
        rintro rfl
        rw [htgt, Option.some.injEq] at hlastslot
        subst hlastslot
        rw [hcollision] at hlastcollision
        contradiction
      refine ih (applyDoubleHash_toNat hshift hh1) ?_ (by omega) (by omega) ⟨last, hlastslot, hlastcollision⟩
      intro i hi
      rcases Nat.lt_succ_iff_lt_or_eq.mp hi with hi | rfl
      . exact hbefore i hi
      . exact ⟨tgt, htgt, hcollision⟩

theorem passed_of_hasCollision {j : Nat} {slot : EntrySlot T} (hvalid : AllValid slots)
    (hremoved : OpenAddressing.removedCount (views slots) = 0) (hj : slots[j]? = some slot)
    (h : slot.hasCollision = true) : Passed (views slots) j := by
  have hnot := isRemoved_of_removedCount hvalid hremoved hj
  have hlive : slot.isLive = true := by
    rw [isLive_iff]
    rw [hasCollision_iff] at h
    rw [← Bool.not_eq_true, isRemoved_iff] at hnot
    omega
  obtain ⟨e, -, hview⟩ := view_eq_of_live (hvalid.getElem? hj) hlive
  rw [h] at hview
  exact ⟨_, by rw [views_getElem?, hj, Option.map_some, hview], rfl⟩

theorem isPending_setCollision (slot : EntrySlot T) : isPending slot.setCollision = false := by
  have hcollision : slot.setCollision.hasCollision = true := by
    rw [hasCollision_iff]
    unfold setCollision
    rw [toNat_or_collision]
    omega
  unfold isPending
  rw [hcollision]
  exact Bool.and_false _

section Swap

variable {start : List (EntrySlot T)} {shift i j : Nat} {src tgt : EntrySlot T}

theorem views_swap (hi : slots[i]? = some src) (hvalid : AllValid slots) (hlive : src.isLive = true)
    : views ((slots.set i tgt).set j src.setCollision) = ((views slots).set i tgt.view).set j src.view.mark := by
  rw [views_set, views_set, (hvalid.getElem? hi).view_setCollision hlive]

theorem swap_getElem? {α : Type} {l : List α} {a b : α} (hi : l[i]? = some a) (hj : l[j]? = some b)
    : (l.set i b)[j]? = some b := by
  by_cases heq : i = j
  . subst heq
    exact Lists.getElem?_set_eq hi b
  . rw [List.getElem?_set_ne heq, hj]

theorem Placing.swap {n : Nat} (h : Placing shift start slots) (hi : slots[i]? = some src)
    (hpending : isPending src = true) (hj : slots[j]? = some tgt) (hcollision : tgt.hasCollision = false)
    (hpath : keyPath shift src.getKeyHash n = j)
    (hbefore : ∀ i < n, Passed (views slots) (keyPath shift src.getKeyHash i))
    : Placing shift start ((slots.set i tgt).set j src.setCollision)
      ∧ ((slots.set i tgt).set j src.setCollision).countP isPending + 1 = slots.countP isPending := by
  unfold isPending at hpending
  rw [Bool.and_eq_true, Bool.not_eq_true'] at hpending
  obtain ⟨hlive, huncollided⟩ := hpending
  obtain ⟨e, -, hsrc⟩ := view_eq_of_live (h.valid.getElem? hi) hlive
  have hviewi : (views slots)[i]? = some src.view := by
    rw [views_getElem?, hi, Option.map_some]
  have hviewj : (views slots)[j]? = some tgt.view := by
    rw [views_getElem?, hj, Option.map_some]
  have hviewj' := swap_getElem? hviewi hviewj
  have hviews := @views_swap _ _ _ j _ tgt hi h.valid hlive
  rw [huncollided] at hsrc
  refine ⟨⟨?_, ?_, ?_, ?_, ?_⟩, ?_⟩
  . exact (h.valid.set (h.valid.getElem? hj)).set ((h.valid.getElem? hi).setCollision hlive)
  . rw [length_set, length_set, h.length]
  . have hcount := removedCount_set hviewi tgt.view
    have hcount' := removedCount_set hviewj' src.view.mark
    have hsrcRemoved : src.view.isRemoved = false := by
      rw [hsrc]
      rfl
    have hzero := h.removedCount
    rw [Slot.isRemoved_mark, hsrcRemoved] at hcount'
    rw [hsrcRemoved] at hcount
    rw [hviews]
    simp only [Bool.false_eq_true, if_false] at hcount hcount'
    omega
  . refine List.Perm.trans ?_ h.entries
    have hentries := entries_set hviewi tgt.view
    have hentries' := entries_set hviewj' src.view.mark
    rw [Slot.entry_mark] at hentries'
    unfold hashedEntries
    rw [hviews]
    exact (perm_append_left_iff _).mp (hentries'.trans hentries)
  . have hkeep : src.view.isPassed = true → tgt.view.isPassed = true := by
      rw [hsrc]
      exact nofun
    have hkeep' : tgt.view.isPassed = true → src.view.mark.isPassed = true := by
      rw [hsrc]
      exact fun _ => rfl
    intro q x hq
    rw [hviews] at hq ⊢
    by_cases hjq : j = q
    . subst hjq
      rw [Lists.getElem?_set_eq hviewj', hsrc, Option.some.injEq] at hq
      injection hq with _ hx
      subst hx
      exact ⟨n, hpath, fun i' hi' => ((hbefore i' hi').set hviewi hkeep).set hviewj' hkeep'⟩
    rw [List.getElem?_set_ne hjq] at hq
    by_cases hiq : i = q
    . subst hiq
      rw [Lists.getElem?_set_eq hviewi, Option.some.injEq] at hq
      rw [(view_live hq).2.2] at hcollision
      contradiction
    . rw [List.getElem?_set_ne hiq] at hq
      exact ((h.placed q x hq).set hviewi hkeep).set hviewj' hkeep'
  . have hcount := Lists.countP_set_add isPending hi tgt
    have hcount' := Lists.countP_set_add isPending (swap_getElem? hi hj) src.setCollision
    have hsrcPending : isPending src = true := by
      unfold isPending
      rw [hlive, huncollided]
      rfl
    rw [isPending_setCollision] at hcount'
    rw [hsrcPending] at hcount
    simp only [Bool.false_eq_true, if_false, if_true] at hcount hcount'
    omega

end Swap

theorem rehashLoop_spec (hshift : ShiftInRange t.mHashShift)
    (hcap : t.capacity = 2 ^ (kHashNumberBits - t.mHashShift)) {start : List (EntrySlot T)}
    : ∀ {rounds i : Nat} {slots : List (EntrySlot T)}, Placing t.mHashShift start slots
      → (∀ j < i, ∀ slot, slots[j]? = some slot → isPending slot = false)
      → t.capacity - i + slots.countP isPending ≤ rounds
      → ∃ slots', t.rehashLoop rounds i slots = some slots' ∧ Placing t.mHashShift start slots'
        ∧ ∀ slot ∈ slots', isPending slot = false := by
  intro rounds
  induction rounds with
  | zero =>
    intro i slots h hbefore hrounds
    have hle : t.capacity ≤ i := by omega
    unfold rehashLoop
    rw [if_pos hle]
    refine ⟨slots, rfl, h, fun slot hslot => ?_⟩
    obtain ⟨j, hj⟩ := List.getElem?_of_mem hslot
    obtain ⟨hlt, -⟩ := List.getElem?_eq_some_iff.mp hj
    rw [h.length, ← hcap] at hlt
    exact hbefore j (by omega) slot hj
  | succ rounds ih =>
    intro i slots h hbefore hrounds
    unfold rehashLoop
    by_cases hle : t.capacity ≤ i
    . rw [if_pos hle]
      refine ⟨slots, rfl, h, fun slot hslot => ?_⟩
      obtain ⟨j, hj⟩ := List.getElem?_of_mem hslot
      obtain ⟨hlt, -⟩ := List.getElem?_eq_some_iff.mp hj
      rw [h.length, ← hcap] at hlt
      exact hbefore j (by omega) slot hj
    rw [if_neg hle]
    have hlt : i < slots.length := by
      rw [h.length, ← hcap]
      omega
    obtain ⟨src, hsrc⟩ : ∃ src, slots[i]? = some src := ⟨_, List.getElem?_eq_getElem hlt⟩
    simp only [hsrc, some_bind]
    have hdecide : (!src.isLive || src.hasCollision) = !isPending src := by
      unfold isPending
      cases src.isLive <;> cases src.hasCollision <;> rfl
    rw [hdecide]
    cases hpending : isPending src with
    | false =>
      refine ih h (fun j hj slot hslot => ?_) (by omega)
      rcases Nat.lt_succ_iff_lt_or_eq.mp hj with hj | rfl
      . exact hbefore j hj slot hslot
      rw [hsrc, Option.some.injEq] at hslot
      subst hslot
      exact hpending
    | true =>
      have huncollided : src.hasCollision = false := by
        unfold isPending at hpending
        rw [Bool.and_eq_true, Bool.not_eq_true'] at hpending
        exact hpending.2
      rw [h.length] at hlt
      obtain ⟨m, hm, hpath⟩ := exists_keyPath hshift src.getKeyHash hlt
      have hm' : m < 0 + slots.length := by
        rw [h.length]
        omega
      obtain ⟨n, htarget, hcollided, tgt, htgt, hfree⟩ := findTarget_spec hshift h.length
        (hash1_toNat hshift src.getKeyHash) (fun i hi => absurd hi (Nat.not_lt_zero i)) (Nat.zero_le m)
        hm' ⟨src, by rw [hpath]; exact hsrc, huncollided⟩
      simp only [Bool.not_true, Bool.false_eq_true, if_false, htarget, htgt, some_bind]
      obtain ⟨hplacing, hcount⟩ := h.swap hsrc hpending htgt hfree rfl (fun i' hi' => by
        obtain ⟨slot, hslot, hcollision⟩ := hcollided i' hi'
        exact passed_of_hasCollision h.valid h.removedCount hslot hcollision)
      have hrounds' : t.capacity - i + ((slots.set i tgt).set (keyPath t.mHashShift src.getKeyHash n)
          src.setCollision).countP isPending ≤ rounds := by omega
      refine ih hplacing (fun j hj slot hslot => ?_) hrounds'
      by_cases heq : keyPath t.mHashShift src.getKeyHash n = j
      . rw [← heq, Lists.getElem?_set_eq (swap_getElem? hsrc htgt), Option.some.injEq] at hslot
        subst hslot
        exact isPending_setCollision src
      . rw [List.getElem?_set_ne heq, List.getElem?_set_ne (by omega)] at hslot
        exact hbefore j hj slot hslot

section Unset

variable {slot : EntrySlot T}

theorem unsetCollision_toNat (slot : EntrySlot T)
    : slot.unsetCollision.mKeyHash.toNat = slot.mKeyHash.toNat / 2 * 2 :=
  toNat_and_not_collision _

theorem valid_unsetCollision (h : slot.Valid) : slot.unsetCollision.Valid := by
  unfold EntrySlot.Valid at h ⊢
  rw [show slot.unsetCollision.mEntry = slot.mEntry from rfl, ← h, Bool.eq_iff_iff, isLive_iff,
    isLive_iff, unsetCollision_toNat]
  omega

theorem hasCollision_unsetCollision (slot : EntrySlot T) : slot.unsetCollision.hasCollision = false := by
  rw [hasCollision_eq, decide_eq_false_iff_not, unsetCollision_toNat]
  omega

theorem isRemoved_unsetCollision (slot : EntrySlot T) : slot.unsetCollision.isRemoved = false := by
  rw [← Bool.not_eq_true, isRemoved_iff, unsetCollision_toNat]
  omega

theorem getKeyHash_unsetCollision (slot : EntrySlot T)
    : slot.unsetCollision.getKeyHash = slot.getKeyHash := by
  unfold getKeyHash
  rw [← BitVec.toNat_inj, toNat_and_not_collision, toNat_and_not_collision, unsetCollision_toNat]
  omega

theorem placing_unsetCollision {shift : Nat} (h : SlotsOk shift slots)
    : Placing shift slots (slots.map unsetCollision) := by
  have hvalid : AllValid (slots.map unsetCollision) := by
    intro slot hslot
    obtain ⟨old, hold, rfl⟩ := mem_map.mp hslot
    exact valid_unsetCollision (h.valid old hold)
  constructor
  . exact hvalid
  . rw [length_map, h.length]
  . unfold removedCount views
    rw [countP_eq_zero]
    intro view hview
    rw [map_map] at hview
    obtain ⟨slot, hslot, rfl⟩ := mem_map.mp hview
    rw [Function.comp, (valid_unsetCollision (h.valid slot hslot)).isRemoved_view, isRemoved_unsetCollision]
    exact Bool.false_ne_true
  . have heq : hashedEntries (slots.map unsetCollision) = hashedEntries slots := by
      clear h hvalid
      induction slots with
      | nil => rfl
      | cons slot rest ih =>
        rw [map_cons, hashedEntries_cons, hashedEntries_cons, ih, getKeyHash_unsetCollision]
        rfl
    rw [heq]
  . intro j x hj
    rw [views_getElem?, List.getElem?_map, Option.map_map] at hj
    obtain ⟨slot, -, hview⟩ := Option.map_eq_some_iff.mp hj
    have := (view_live hview).2.2
    rw [hasCollision_unsetCollision] at this
    contradiction

end Unset

theorem Placing.slotsOk {shift : Nat} {start : List (EntrySlot T)} (h : Placing shift start slots)
    (hdone : ∀ slot ∈ slots, isPending slot = false) : SlotsOk shift slots := by
  refine ⟨h.valid, h.length, fun j c x hj => ?_⟩
  rw [views_getElem?] at hj
  obtain ⟨slot, hslot, hview⟩ := Option.map_eq_some_iff.mp hj
  obtain ⟨hentry, -, hc⟩ := view_live hview
  have hpending := hdone slot (mem_of_getElem? hslot)
  have hlive : slot.isLive = true := by
    rw [h.valid.getElem? hslot, hentry]
    rfl
  unfold isPending at hpending
  rw [hlive, hc, Bool.true_and, Bool.not_eq_false'] at hpending
  subst hpending
  apply h.placed j x
  rw [views_getElem?, hslot, Option.map_some, hview]

theorem rehashTableInPlace_spec (h : Counted t)
    : ∃ t', t.rehashTableInPlace = some t' ∧ Rebuilt t t' := by
  unfold rehashTableInPlace
  cases ht : t.mTable with
  | none =>
    have hslots : t.slots = [] := by
      unfold HashTable.slots
      rw [ht]
      rfl
    have hcap : t.capacity = 0 := by
      rw [h.capacity_eq, hslots]
      rfl
    have hloop : t.rehashLoop (2 * t.capacity) 0 [] = some [] := by
      rw [hcap]
      unfold rehashLoop
      rw [if_pos (by rw [hcap])]
    rw [hslots, map_nil, hloop]
    have hcount := h.removedCount
    rw [hslots] at hcount
    refine ⟨_, rfl, ⟨⟨h.shift, nofun, ?_, rfl, ?_⟩, ?_, rfl, rfl, rfl, rfl⟩⟩
    . rw [← h.entryCount, hslots]
      rfl
    . have := h.entryLoad
      rw [hcap] at this
      exact this
    . rw [hslots]
      exact List.Perm.refl _
  | some slots =>
    have hok := h.slots (by rw [ht]; rfl)
    have hcap : t.capacity = 2 ^ (kHashNumberBits - t.mHashShift) := by
      rw [h.capacity_eq, hok.length]
    have hrounds : t.capacity - 0 + (t.slots.map unsetCollision).countP isPending ≤ 2 * t.capacity := by
      have hle := countP_le_length (p := isPending) (l := t.slots.map unsetCollision)
      rw [length_map, ← h.capacity_eq] at hle
      omega
    obtain ⟨slots', hloop, hplacing, hdone⟩ := rehashLoop_spec h.shift hcap (placing_unsetCollision hok)
      (fun j hj => absurd hj (Nat.not_lt_zero j)) hrounds
    rw [hloop]
    refine ⟨_, rfl, ⟨⟨h.shift, fun _ => hplacing.slotsOk hdone, ?_, hplacing.removedCount, ?_⟩,
      hplacing.entries, rfl, rfl, rfl, rfl⟩⟩
    . exact hplacing.entries.length_eq.trans h.entryCount
    have := h.entryLoad
    unfold capacity at this ⊢
    rw [ht] at this
    exact this

end RehashInPlace

end HashTable

end SpiderMonkey
