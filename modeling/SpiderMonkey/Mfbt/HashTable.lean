import SpiderMonkey.Mfbt.Lemmas.HashTableOps

/-!
This module contains the refinement of finite maps by hash tables, over runs of calls.
-/

namespace SpiderMonkey

open List Option
open OpenAddressing

namespace HashTables

variable {T Key Lookup : Type}

structure World (T Lookup : Type) where
  table : HashTable T
  handles : List (AddPtr × Lookup)
  enumeration : Option ModIterator
deriving DecidableEq

inductive Call (T Key Lookup : Type) where
  | lookup (l : Lookup)
  | lookupForAdd (l : Lookup) (ensured : Bool)
  | add (h : Nat) (e : T) (oom : Bool) (mem : List Bool)
  | relookupOrAdd (h : Nat) (l : Lookup) (e : T) (oom : Bool) (mem : List Bool)
  | putNew (l : Lookup) (e : T) (oom ensured : Bool) (mem : List Bool)
  | remove (l : Lookup) (mem : List Bool)
  | rekeyAs (aOldLookup aNewLookup : Lookup) (aNewKey : Key) (mem : List Bool)
  | reserve (aLen : Nat) (mem : List Bool)
  | clear
  | compact (mem : List Bool)
  | modIter
  | iterDone
  | iterGet
  | iterNext
  | iterRemove
  | iterRekey (l : Lookup) (k : Key)
  | iterClose (mem mem' : List Bool)

inductive Answer (T : Type) where
  | unit
  | bool (b : Bool)
  | entry (e : Option T)
deriving DecidableEq

namespace World

def init (aLen : Nat) : World T Lookup := ⟨HashTable.init aLen, [], none⟩

def entryAt (t : HashTable T) (slot : Option Nat) : Option T := slot.bind (HashTable.entryAt t.slots)

def step (p : HashPolicy T Key Lookup) (w : World T Lookup) :
    Call T Key Lookup → Option (World T Lookup × Answer T)
  | .lookup l => do
    let r ← HashTable.lookup p w.table l
    some (w, .entry (entryAt w.table r))
  | .lookupForAdd l ensured => do
    let (aPtr, t) ← HashTable.lookupForAdd p w.table l ensured
    some ({ w with table := t, handles := w.handles ++ [(aPtr, l)] }, .entry (entryAt t aPtr.mSlot))
  | .add h e oom mem => do
    let (aPtr, _) ← w.handles[h]?
    let (done, t) ← w.table.add aPtr e oom mem
    some ({ w with table := t }, .bool done)
  | .relookupOrAdd h l e oom mem => do
    let (aPtr, _) ← w.handles[h]?
    let (done, t) ← HashTable.relookupOrAdd p w.table aPtr l e oom mem
    some ({ w with table := t }, .bool done)
  | .putNew l e oom ensured mem => do
    let (done, t) ← HashTable.putNew p w.table l e oom ensured mem
    some ({ w with table := t }, .bool done)
  | .remove l mem => do
    let t ← HashTable.remove p w.table l mem
    some ({ w with table := t }, .unit)
  | .rekeyAs aOldLookup aNewLookup aNewKey mem => do
    let (found, t) ← HashTable.rekeyAs p w.table aOldLookup aNewLookup aNewKey mem
    some ({ w with table := t }, .bool found)
  | .reserve aLen mem => do
    let (done, t) ← w.table.reserve aLen mem
    some ({ w with table := t }, .bool done)
  | .clear => some ({ w with table := w.table.clear }, .unit)
  | .compact mem => do
    let t ← w.table.compact mem
    some ({ w with table := t }, .unit)
  | .modIter => some ({ w with enumeration := some (ModIterator.init w.table) }, .unit)
  | .iterDone => do
    let it ← w.enumeration
    some (w, .bool it.done)
  | .iterGet => do
    let it ← w.enumeration
    some (w, .entry (it.get w.table))
  | .iterNext => do
    let it ← w.enumeration
    some ({ w with enumeration := some (it.next w.table) }, .unit)
  | .iterRemove => do
    let it ← w.enumeration
    let (it, t) ← it.remove w.table
    some ({ w with table := t, enumeration := some it }, .unit)
  | .iterRekey l k => do
    let it ← w.enumeration
    let (it, t) ← ModIterator.rekey p w.table it l k
    some ({ w with table := t, enumeration := some it }, .unit)
  | .iterClose mem mem' => do
    let it ← w.enumeration
    let t ← it.close w.table mem mem'
    some ({ w with table := t, enumeration := none }, .unit)

def contents (w : World T Lookup) : List T := HashTable.contents w.table.slots

def Quiet (w : World T Lookup) : Prop := ∀ it, w.enumeration = some it → it.mRekeyed = false

def AtEntry (w : World T Lookup) (it : ModIterator) : Prop :=
  w.enumeration = some it ∧ it.mValidEntry = true ∧ it.done = false

-- What the callers have to see to. A handle can be used for an entry that is not there as long as the
-- table has not been changed.
def Legal (p : HashPolicy T Key Lookup) (w : World T Lookup) : Call T Key Lookup → Prop
  | .lookup _ => w.Quiet
  | .lookupForAdd _ _ => w.Quiet
  | .add h e _ _ => w.enumeration = none ∧ ∃ aPtr l, w.handles[h]? = some (aPtr, l)
    ∧ aPtr.mGeneration = w.table.mGen ∧ aPtr.mMutationCount = w.table.mMutationCount
    ∧ entryAt w.table aPtr.mSlot = none ∧ p.matchEntry e l = true
  | .relookupOrAdd h l e _ _ => w.enumeration = none ∧ p.matchEntry e l = true
    ∧ ∃ aPtr l', w.handles[h]? = some (aPtr, l')
      ∧ (isLiveHash aPtr.mKeyHash = true → aPtr.mKeyHash = p.prepareHash l)
  | .putNew l e _ _ _ => w.enumeration = none ∧ p.matchEntry e l = true
    ∧ ∀ x ∈ w.contents, p.matchEntry x l = false
  | .remove _ _ => w.enumeration = none
  | .rekeyAs aOldLookup aNewLookup aNewKey _ => w.enumeration = none ∧ p.match aNewKey aNewLookup = true
    ∧ ∀ x ∈ w.contents, p.matchEntry x aNewLookup = true → p.matchEntry x aOldLookup = true
  | .reserve _ _ => w.enumeration = none
  | .clear => w.enumeration = none
  | .compact _ => w.enumeration = none
  | .modIter => w.enumeration = none
  | .iterDone => w.enumeration.isSome
  | .iterGet => ∃ it, w.AtEntry it
  | .iterNext => ∃ it, w.enumeration = some it ∧ it.done = false
  | .iterRemove => ∃ it, w.AtEntry it
  | .iterRekey l k => ∃ it, w.AtEntry it ∧ p.match k l = true
    ∧ ∀ j x, HashTable.entryAt w.table.slots j = some x → p.matchEntry x l = true → j = it.mCur
  | .iterClose _ _ => w.enumeration.isSome

def Refused (p : HashPolicy T Key Lookup) (w : World T Lookup) : Call T Key Lookup → Prop
  | .add h _ oom mem => oom = false ∨ HashTable.OutOfMemory w.table mem
    ∨ ∃ aPtr l, w.handles[h]? = some (aPtr, l) ∧ isLiveHash aPtr.mKeyHash = false
  | .relookupOrAdd h _ _ oom mem => oom = false ∨ HashTable.OutOfMemory w.table mem
    ∨ ∃ aPtr l, w.handles[h]? = some (aPtr, l) ∧ isLiveHash aPtr.mKeyHash = false
  | .putNew _ _ oom ensured mem => oom = false ∨ ensured = false ∨ HashTable.OutOfMemory w.table mem
  | .reserve aLen mem => mem.head?.getD false = false ∨ HashTable.sMaxInit < aLen
  | .rekeyAs aOldLookup _ _ _ => ∀ x ∈ w.contents, p.matchEntry x aOldLookup = false
  | .iterDone => ∃ it, w.enumeration = some it ∧ it.done = false
  | _ => False

end World

open HashTable

-- A finite map, as its entries in no particular order, and the enumeration of it if one is open: the
-- current entry unless it has been removed or rekeyed, the entries that are still to come, and whether
-- there has been none left.
structure Enumeration (T : Type) where
  current : Option T
  rest : List T
  atEnd : Bool

structure FiniteMap (T : Type) where
  entries : List T
  enumeration : Option (Enumeration T)

namespace FiniteMap

def Holds (p : HashPolicy T Key Lookup) (l : Lookup) (m : FiniteMap T) : Option T → Prop
  | some e => e ∈ m.entries ∧ p.matchEntry e l = true
  | none => ∀ x ∈ m.entries, p.matchEntry x l = false

inductive Step (p : HashPolicy T Key Lookup) (m : FiniteMap T) :
    Call T Key Lookup → Answer T → FiniteMap T → Prop where
  | lookup {l : Lookup} {r : Option T}
    : m.Holds p l r → Step p m (.lookup l) (.entry r) m
  | lookupForAdd {l : Lookup} {r : Option T}
    : m.Holds p l r → Step p m (.lookupForAdd l true) (.entry r) m
  | notEnsured {l : Lookup} : Step p m (.lookupForAdd l false) (.entry none) m
  | add {h : Nat} {e : T} {oom : Bool} {mem : List Bool}
    : Step p m (.add h e oom mem) (.bool true) { m with entries := e :: m.entries }
  | addFailed {h : Nat} {e : T} {oom : Bool} {mem : List Bool}
    : Step p m (.add h e oom mem) (.bool false) m
  | relookupFound {h : Nat} {l : Lookup} {e e' : T} {oom : Bool} {mem : List Bool}
    : m.Holds p l (some e') → Step p m (.relookupOrAdd h l e oom mem) (.bool true) m
  | relookupAdd {h : Nat} {l : Lookup} {e : T} {oom : Bool} {mem : List Bool}
    : m.Holds p l none
      → Step p m (.relookupOrAdd h l e oom mem) (.bool true) { m with entries := e :: m.entries }
  | relookupFailed {h : Nat} {l : Lookup} {e : T} {oom : Bool} {mem : List Bool}
    : Step p m (.relookupOrAdd h l e oom mem) (.bool false) m
  | putNew {l : Lookup} {e : T} {oom ensured : Bool} {mem : List Bool}
    : Step p m (.putNew l e oom ensured mem) (.bool true) { m with entries := e :: m.entries }
  | putNewFailed {l : Lookup} {e : T} {oom ensured : Bool} {mem : List Bool}
    : Step p m (.putNew l e oom ensured mem) (.bool false) m
  | remove {l : Lookup} {e : T} {entries : List T} {mem : List Bool}
    : p.matchEntry e l = true → (e :: entries).Perm m.entries
      → Step p m (.remove l mem) .unit { m with entries := entries }
  | removeAbsent {l : Lookup} {mem : List Bool}
    : m.Holds p l none → Step p m (.remove l mem) .unit m
  | rekeyAs {aOldLookup aNewLookup : Lookup} {aNewKey : Key} {e : T} {entries : List T} {mem : List Bool}
    : p.matchEntry e aOldLookup = true → (e :: entries).Perm m.entries
      → Step p m (.rekeyAs aOldLookup aNewLookup aNewKey mem) (.bool true)
        { m with entries := p.setKey e aNewKey :: entries }
  | rekeyAbsent {aOldLookup aNewLookup : Lookup} {aNewKey : Key} {mem : List Bool}
    : m.Holds p aOldLookup none → Step p m (.rekeyAs aOldLookup aNewLookup aNewKey mem) (.bool false) m
  | reserve {aLen : Nat} {mem : List Bool} {done : Bool}
    : Step p m (.reserve aLen mem) (.bool done) m
  | clear : Step p m .clear .unit { m with entries := [] }
  | compact {mem : List Bool} : Step p m (.compact mem) .unit m
  | modIter {current : Option T} {rest : List T}
    : (current.toList ++ rest).Perm m.entries → (current = none → rest = [])
      → Step p m .modIter .unit { m with enumeration := some ⟨current, rest, current.isNone⟩ }
  | iterDone {it : Enumeration T}
    : m.enumeration = some it → Step p m .iterDone (.bool it.atEnd) m
  | iterGet {it : Enumeration T}
    : m.enumeration = some it → Step p m .iterGet (.entry it.current) m
  | iterNext {it : Enumeration T} {current : Option T} {rest : List T}
    : m.enumeration = some it → (current.toList ++ rest).Perm it.rest → (current = none → rest = [])
      → Step p m .iterNext .unit { m with enumeration := some ⟨current, rest, current.isNone⟩ }
  | iterRemove {it : Enumeration T} {e : T} {entries : List T}
    : m.enumeration = some it → it.current = some e → (e :: entries).Perm m.entries
      → Step p m .iterRemove .unit ⟨entries, some { it with current := none }⟩
  | iterRekey {l : Lookup} {k : Key} {it : Enumeration T} {e : T} {entries rest : List T}
    : m.enumeration = some it → it.current = some e → (e :: entries).Perm m.entries
      → rest.Perm it.rest ∨ rest.Perm (p.setKey e k :: it.rest)
      → Step p m (.iterRekey l k) .unit
        ⟨p.setKey e k :: entries, some { it with current := none, rest := rest }⟩
  | iterClose {mem mem' : List Bool}
    : Step p m (.iterClose mem mem') .unit { m with enumeration := none }

end FiniteMap

variable {w : World T Lookup} {slots : List (EntrySlot T)}

section Invariant

variable {p : HashPolicy T Key Lookup} {t t' : HashTable T}

structure HandleOk (p : HashPolicy T Key Lookup) (t : HashTable T) (h : AddPtr × Lookup) : Prop where
  mGen : h.1.mGeneration ≤ t.mGen
  mMutationCount : h.1.mMutationCount ≤ t.mMutationCount
  hash : isLiveHash h.1.mKeyHash = true → h.1.mKeyHash = p.prepareHash h.2
  slot : isLiveHash h.1.mKeyHash = true → h.1.mGeneration = t.mGen → h.1.mMutationCount = t.mMutationCount
    → (h.1.mSlot = none → t.mTable = none) ∧ ∀ i, h.1.mSlot = some i → SlotOf p h.2 t.slots i
      ∧ (entryAt t.slots i = none → Reached (views t.slots) (keyPath t.mHashShift h.1.mKeyHash) i)

def Changed (t t' : HashTable T) : Prop :=
  t.mGen ≤ t'.mGen ∧ t.mMutationCount ≤ t'.mMutationCount
    ∧ (t.mGen < t'.mGen ∨ t.mMutationCount < t'.mMutationCount)

theorem HandleOk.changed (hok : HandleOk p t h) (hchanged : Changed t t')
    : HandleOk p t' h := by
  obtain ⟨hgen, hmutation, hstrict⟩ := hchanged
  have := hok.mGen
  have := hok.mMutationCount
  exact ⟨by omega, by omega, hok.hash, fun _ hgen' hmutation' => by omega⟩

theorem changed_of_rebuilt (h : Rebuilt t t') : Changed t t' := by
  unfold Changed
  rw [h.mGen, h.mMutationCount]
  omega

structure EnumerationOk (t : HashTable T) (it : ModIterator) : Prop where
  mEnd : it.mEnd = t.slots.length
  mCur : it.mCur ≤ t.slots.length
  entry : it.mValidEntry = true → it.mCur < t.slots.length → (entryAt t.slots it.mCur).isSome

structure Inv (p : HashPolicy T Key Lookup) (w : World T Lookup) : Prop where
  counted : Counted w.table
  stored : Stored p (hashedEntries w.table.slots)
  loaded : w.Quiet → Loaded w.table
  handles : ∀ h ∈ w.handles, HandleOk p w.table h
  enumeration : ∀ it, w.enumeration = some it → EnumerationOk w.table it

theorem quiet_of_none (h : w.enumeration = none) : w.Quiet := by
  intro it hit
  rw [h] at hit
  contradiction

theorem Inv.replace (h : Inv p w) (hnone : w.enumeration = none) (hcounted : Counted t') (hloaded : Loaded t')
    (hstored : Stored p (hashedEntries t'.slots)) (hchanged : Changed w.table t')
    : Inv p { w with table := t' } := by
  refine ⟨hcounted, hstored, fun _ => hloaded, fun x hx => (h.handles x hx).changed hchanged, ?_⟩
  intro it hit
  rw [show w.enumeration = some it from hit] at hnone
  contradiction

theorem Inv.same (h : Inv p w) (ht : t' = w.table) : Inv p { w with table := t' } := by
  subst ht
  exact h

theorem Inv.replace_rebuilt (h : Inv p w) (hnone : w.enumeration = none)
    (ht : t' = w.table ∨ Rebuilt w.table t') : Inv p { w with table := t' } := by
  rcases ht with ht | ht
  . exact h.same ht
  . exact h.replace hnone ht.counted ht.loaded (h.stored.perm ht.entries) (changed_of_rebuilt ht)

structure Tracks (t : HashTable T) (it : ModIterator) (e : Enumeration T) : Prop where
  current : e.current = if it.mValidEntry then entryAt t.slots it.mCur else none
  rest : e.rest.Perm (contents (t.slots.drop (it.mCur + 1)))
  atEnd : e.atEnd = it.done

structure Represents (w : World T Lookup) (m : FiniteMap T) : Prop where
  entries : m.entries.Perm w.contents
  enumeration : Option.Rel (Tracks w.table) w.enumeration m.enumeration

theorem Represents.holds_iff (h : Represents w m) (l : Lookup) (r : Option T) : m.Holds p l r ↔ match r with
      | some e => e ∈ w.contents ∧ p.matchEntry e l = true
      | none => ∀ x ∈ w.contents, p.matchEntry x l = false := by
  unfold FiniteMap.Holds
  cases r with
  | none =>
    constructor
    . exact fun hm x hx => hm x (h.entries.mem_iff.mpr hx)
    . exact fun hm x hx => hm x (h.entries.mem_iff.mp hx)
  | some e => simp [h.entries.mem_iff]

theorem mem_contents
    : e ∈ contents slots ↔ ∃ i, entryAt slots i = some e := by
  unfold contents entryAt
  rw [mem_filterMap]
  constructor
  . rintro ⟨slot, hslot, he⟩
    obtain ⟨i, hi⟩ := List.getElem?_of_mem hslot
    exact ⟨i, by rw [hi, bind_some, he]⟩
  rintro ⟨i, hi⟩
  obtain ⟨slot, hslot, he⟩ := bind_eq_some_iff.mp hi
  exact ⟨slot, mem_of_getElem? hslot, he⟩

theorem forall_contents {P : T → Prop}
    : (∀ e ∈ contents slots, P e) ↔ ∀ x ∈ hashedEntries slots, P x.2 := by
  rw [contents_eq]
  exact forall_mem_map

def Simulates (p : HashPolicy T Key Lookup) (w : World T Lookup) (m : FiniteMap T) (call : Call T Key Lookup) :
    Prop :=
  ∃ w' a, w.step p call = some (w', a) ∧ Inv p w' ∧ (a = .bool false → w.Refused p call)
    ∧ ∃ m', m.Step p call a m' ∧ Represents w' m'

end Invariant

section Steps

variable {p : HashPolicy T Key Lookup} {w : World T Lookup} {m : FiniteMap T}

variable {l : Lookup}

theorem simulates_lookup (hp : p.Lawful) (h : Inv p w) (hm : Represents w m) (hlegal : w.Quiet)
    : Simulates p w m (.lookup l) := by
  rcases lookup_spec hp h.counted (h.loaded hlegal) h.stored l with
    ⟨i, e, hlookup, he, hl⟩ | ⟨hlookup, hnone⟩
  . refine ⟨w, .entry (some e), ?_, h, nofun, m, .lookup ?_, hm⟩
    . simp [World.step, hlookup, World.entryAt, he]
    . rw [hm.holds_iff]
      exact ⟨mem_contents.mpr ⟨i, he⟩, hl⟩
  . refine ⟨w, .entry none, ?_, h, nofun, m, .lookup ?_, hm⟩
    . simp [World.step, hlookup, World.entryAt]
    . rw [hm.holds_iff]
      exact forall_contents.mpr hnone

variable {slots' : List (EntrySlot T)}

theorem SlotOf.marked {i : Nat}
    (hmarked : MarkedSlots slots slots') (hvalid : AllValid slots) (h : SlotOf p l slots i) : SlotOf p l slots' i := by
  unfold SlotOf at h ⊢
  rw [hmarked.entryAt_eq, hmarked.hashedEntries_eq]
  rcases h with h | ⟨⟨slot, hslot, hdead⟩, hnone⟩
  . exact .inl h
  right
  obtain ⟨slot', hslot'⟩ := hmarked.exists_slot hslot
  refine ⟨⟨slot', hslot', ?_⟩, hnone⟩
  rw [← (hmarked.valid.getElem? hslot').entry, hmarked.view_eq_of_not_live hvalid hslot hslot' hdead,
    (hvalid.getElem? hslot).entry, hdead]

variable {t : HashTable T}

theorem counted_marked (h : Counted t) (hsome : t.mTable.isSome) (hmarked : MarkedSlots t.slots slots)
    : Counted (t.setSlots slots) ∧ (t.setSlots slots).capacity = t.capacity := by
  have hcapacity : (t.setSlots slots).capacity = t.capacity := by
    unfold HashTable.capacity rawCapacity
    rw [hsome]
    rfl
  refine ⟨⟨h.shift, fun _ => (h.slots hsome).marked hmarked, ?_, ?_, ?_⟩, hcapacity⟩
  . rw [slots_setSlots, hmarked.hashedEntries_eq]
    exact h.entryCount
  . rw [slots_setSlots, hmarked.marked.removedCount_eq]
    exact h.removedCount
  . rw [hcapacity]
    exact h.entryLoad

theorem contents_marked (hmarked : MarkedSlots slots slots')
    (i : Nat) : contents (slots'.drop i) = contents (slots.drop i) :=
  contents_drop_congr hmarked.length fun k _ => hmarked.entryAt_eq k

theorem HandleOk.marked (hok : HandleOk p t h) (hvalid : AllValid t.slots) (hsome : t.mTable.isSome)
    (hmarked : MarkedSlots t.slots slots) : HandleOk p (t.setSlots slots) h := by
  refine ⟨hok.mGen, hok.mMutationCount, hok.hash, fun hlive hgen hmutation => ?_⟩
  obtain ⟨hnone, hslot⟩ := hok.slot hlive hgen hmutation
  constructor
  . intro h
    rw [hnone h] at hsome
    contradiction
  intro i hi
  obtain ⟨hslotOf, hreached⟩ := hslot i hi
  refine ⟨SlotOf.marked hmarked hvalid hslotOf, fun hentry => ?_⟩
  rw [slots_setSlots, hmarked.entryAt_eq] at hentry
  exact hmarked.marked.reached (hreached hentry)

theorem Inv.marked (h : Inv p w) (hsome : w.table.mTable.isSome) (hmarked : MarkedSlots w.table.slots slots)
    : Inv p { w with table := w.table.setSlots slots } := by
  obtain ⟨hcounted, hcapacity⟩ := counted_marked h.counted hsome hmarked
  refine ⟨hcounted, ?_, fun hquiet => ?_, ?_, fun it hit => ?_⟩
  . rw [slots_setSlots, hmarked.hashedEntries_eq]
    exact h.stored
  . have := h.loaded hquiet
    unfold Loaded at this ⊢
    rw [hcapacity]
    exact this
  . exact fun x hx => (h.handles x hx).marked h.counted.valid hsome hmarked
  have hok := h.enumeration it hit
  constructor
  . rw [slots_setSlots, hmarked.length, hok.mEnd]
  . rw [slots_setSlots, hmarked.length]
    exact hok.mCur
  . rw [slots_setSlots, hmarked.length, hmarked.entryAt_eq]
    exact hok.entry

variable {t' : HashTable T} {it : ModIterator}

theorem Tracks.congr (h : Tracks t it e) (hentry : entryAt t'.slots it.mCur = entryAt t.slots it.mCur)
    (hrest : contents (t'.slots.drop (it.mCur + 1)) = contents (t.slots.drop (it.mCur + 1)))
    : Tracks t' it e := by
  refine ⟨?_, ?_, h.atEnd⟩
  . rw [hentry]
    exact h.current
  . rw [hrest]
    exact h.rest

theorem rel_imp {α β : Type} {R S : α → β → Prop} {x : Option α} {y : Option β} (himp : ∀ a b, R a b → S a b)
    (h : Option.Rel R x y) : Option.Rel S x y := by
  cases h with
  | some h => exact .some (himp _ _ h)
  | none => exact .none

theorem rel_none {α β : Type} {R S : α → β → Prop} {y : Option β} (h : Option.Rel R none y)
    : Option.Rel S none y := by
  cases h with
  | none => exact .none

theorem Represents.marked (hm : Represents w m) (hmarked : MarkedSlots w.table.slots slots)
    : Represents { w with table := w.table.setSlots slots } m := by
  constructor
  . have := contents_marked hmarked 0
    rw [drop_zero, drop_zero] at this
    unfold World.contents
    rw [slots_setSlots, this]
    exact hm.entries
  . simp only []
    exact rel_imp (fun _ _ h => h.congr (hmarked.entryAt_eq _) (contents_marked hmarked _)) hm.enumeration

theorem Represents.handle (hm : Represents w m) (h : AddPtr × Lookup)
    : Represents { w with handles := w.handles ++ [h] } m :=
  ⟨hm.entries, hm.enumeration⟩

theorem Inv.handle (h : Inv p w) (hx : HandleOk p w.table x)
    : Inv p { w with handles := w.handles ++ [x] } := by
  refine ⟨h.counted, h.stored, h.loaded, fun y hy => ?_, h.enumeration⟩
  rcases mem_append.mp hy with hy | hy
  . exact h.handles y hy
  . rw [mem_singleton.mp hy]
    exact hx

theorem contents_nil (ht : t.mTable = none) : contents t.slots = [] := by
  unfold HashTable.slots
  rw [ht]
  rfl

theorem simulates_lookupForAdd (hp : p.Lawful) (h : Inv p w) (hm : Represents w m) (ensured : Bool)
    (hlegal : w.Quiet) : Simulates p w m (.lookupForAdd l ensured) := by
  cases ensured with
  | false =>
    refine ⟨_, .entry none, rfl, h.handle ?_, nofun, m, .notEnsured, hm.handle _⟩
    exact ⟨Nat.zero_le _, Nat.zero_le _, nofun, nofun⟩
  | true =>
    cases ht : w.table.mTable with
    | none =>
      refine ⟨{ w with handles := w.handles ++ [(⟨none, p.prepareHash l, w.table.mGen, w.table.mMutationCount⟩, l)] },
        .entry none, ?_, h.handle ?_, nofun, m, .lookupForAdd ?_, hm.handle _⟩
      . simp [World.step, HashTable.lookupForAdd, ht, World.entryAt]
      . exact ⟨Nat.le_refl _, Nat.le_refl _, fun _ => rfl, fun _ _ _ => ⟨fun _ => ht, nofun⟩⟩
      rw [hm.holds_iff]
      unfold World.contents
      rw [contents_nil ht]
      exact nofun
    | some _ =>
      have hsome : w.table.mTable.isSome := by rw [ht]; rfl
      obtain ⟨⟨i, slots⟩, hfound, hmarked, hslot, hreached⟩ :=
        lookupSlot_found hp h.counted hsome (h.loaded hlegal) h.stored .ForAdd l
      have hmarkedInv := h.marked hsome hmarked
      refine ⟨_, .entry (entryAt slots i), ?_, hmarkedInv.handle (x := (⟨some i, p.prepareHash l,
        w.table.mGen, w.table.mMutationCount⟩, l)) ?_, nofun, m, .lookupForAdd ?_, (hm.marked hmarked).handle _⟩
      . simp [World.step, HashTable.lookupForAdd, ht, World.entryAt, hfound]
      . refine ⟨Nat.le_refl _, Nat.le_refl _, fun _ => rfl, fun _ _ _ => ⟨nofun, fun j hj => ?_⟩⟩
        rw [Option.some.injEq] at hj
        subst hj
        exact ⟨hslot, fun hnone => hreached rfl hnone⟩
      rw [hm.holds_iff]
      rcases hslot with ⟨e, he, hl⟩ | ⟨⟨slot, hi, hdead⟩, hnone⟩
      . simp only [] at he
        rw [he]
        rw [hmarked.entryAt_eq] at he
        exact ⟨mem_contents.mpr ⟨i, he⟩, hl⟩
      rw [entryAt_of_not_live hmarked.valid hi hdead]
      rw [hmarked.hashedEntries_eq] at hnone
      exact forall_contents.mpr hnone

theorem Represents.replace {entries : List T} (hm : Represents w m)
    (hnone : w.enumeration = none) (hperm : entries.Perm (contents t'.slots))
    : Represents { w with table := t' } { m with entries := entries } := by
  refine ⟨hperm, ?_⟩
  have henumeration := hm.enumeration
  rw [hnone] at henumeration ⊢
  exact rel_none henumeration

theorem contents_perm (h : (hashedEntries slots).Perm (hashedEntries slots'))
    : (contents slots).Perm (contents slots') := by
  rw [contents_eq, contents_eq]
  exact h.map _

variable {x : HashNumber × T}

theorem contents_perm_cons (h : (hashedEntries slots).Perm (x :: hashedEntries slots'))
    : (contents slots).Perm (x.2 :: contents slots') := by
  rw [contents_eq, contents_eq]
  exact h.map _

section Added

variable {t' : HashTable T} {l : Lookup} {e : T}

theorem Inv.added (hp : p.Lawful) (h : Inv p w) (hnone : w.enumeration = none)
    (hadded : Added w.table t' (p.prepareHash l, e)) (hl : p.matchEntry e l = true)
    (hnew : ∀ x ∈ hashedEntries w.table.slots, p.matchEntry x.2 l = false)
    : Inv p { w with table := t' } :=
  h.replace hnone hadded.counted hadded.loaded ((h.stored.cons hp hl hnew).perm hadded.entries)
    ⟨hadded.mGen, Nat.le_of_lt hadded.mMutationCount, .inr hadded.mMutationCount⟩

theorem Represents.added (hm : Represents w m) (hnone : w.enumeration = none) (hadded : Added w.table t' (kh, e))
    : Represents { w with table := t' } { m with entries := e :: m.entries } :=
  hm.replace hnone ((hm.entries.cons e).trans (contents_perm_cons hadded.entries).symm)

end Added

theorem goesTo (h : HandleOk p t (aPtr, l)) (hlive : isLiveHash aPtr.mKeyHash = true) (hgen : aPtr.mGeneration = t.mGen)
    (hmutation : aPtr.mMutationCount = t.mMutationCount) (hnot : World.entryAt t aPtr.mSlot = none)
    : GoesTo t aPtr.mKeyHash aPtr.mSlot ∧ ∀ x ∈ hashedEntries t.slots, p.matchEntry x.2 l = false := by
  obtain ⟨hnone, hsome⟩ := h.slot hlive hgen hmutation
  cases hslot : aPtr.mSlot with
  | none =>
    have ht := hnone hslot
    refine ⟨ht, ?_⟩
    unfold HashTable.slots
    rw [ht]
    exact nofun
  | some i =>
    obtain ⟨hslotOf, hreached⟩ := hsome i hslot
    rw [hslot] at hnot
    have hentry : entryAt t.slots i = none := hnot
    rcases hslotOf with ⟨e, he, -⟩ | ⟨⟨slot, hi, hdead⟩, hno⟩
    . rw [hentry] at he
      contradiction
    . exact ⟨⟨slot, hi, hdead, hreached hentry⟩, hno⟩

theorem keptHash_of_handle (h : HandleOk p t (aPtr, l))
    (hlive : isLiveHash aPtr.mKeyHash = true) : KeptHash aPtr.mKeyHash := by
  rw [h.hash hlive]
  exact p.prepareHash_toNat l

variable {mem : List Bool}

theorem simulates_add (hp : p.Lawful) (h : Inv p w) (hm : Represents w m) {oom : Bool}
    (hlegal : w.Legal p (.add n e oom mem)) : Simulates p w m (.add n e oom mem) := by
  obtain ⟨hnone, aPtr, l, hhandle, hgen, hmutation, hnot, hl⟩ := hlegal
  have hok := h.handles _ (mem_of_getElem? hhandle)
  have hstep {done : Bool} {t' : HashTable T} (hadd : w.table.add aPtr e oom mem = some (done, t'))
      : w.step p (.add n e oom mem) = some ({ w with table := t' }, .bool done) := by
    simp [World.step, hhandle, hadd, some_bind]
  cases hlive : isLiveHash aPtr.mKeyHash with
  | false =>
    refine ⟨w, .bool false, hstep ?_, h, fun _ => .inr (.inr ⟨aPtr, l, hhandle, hlive⟩), m, .addFailed, hm⟩
    unfold HashTable.add
    rw [hlive]
    rfl
  | true =>
    obtain ⟨hgoes, hnew⟩ := goesTo hok hlive hgen hmutation hnot
    obtain ⟨done, t', hadd, hdone, hfailed⟩ := add_spec h.counted (h.loaded (quiet_of_none hnone)) aPtr
      (keptHash_of_handle hok hlive) hgoes e oom mem
    cases done with
    | true =>
      have hadded := hdone rfl
      rw [hok.hash hlive] at hadded
      exact ⟨_, _, hstep hadd, h.added hp hnone hadded hl hnew, nofun, _, .add, hm.added hnone hadded⟩
    | false =>
      obtain ⟨rfl, hwhy⟩ := hfailed rfl
      refine ⟨w, _, hstep hadd, h, fun _ => ?_, m, .addFailed, hm⟩
      rcases hwhy with hoom | hmem
      . exact .inl hoom
      . exact .inr (.inl hmem)

theorem simulates_putNew (hp : p.Lawful) (h : Inv p w) (hm : Represents w m)
    {oom ensured : Bool} (hlegal : w.Legal p (.putNew l e oom ensured mem))
    : Simulates p w m (.putNew l e oom ensured mem) := by
  obtain ⟨hnone, hl, hnew⟩ := hlegal
  obtain ⟨done, t', hput, hdone, hfailed⟩ := putNew_spec (p := p) h.counted
    (h.loaded (quiet_of_none hnone)) l e oom ensured mem
  have hstep : w.step p (.putNew l e oom ensured mem) = some ({ w with table := t' }, .bool done) := by
    simp [World.step, hput, some_bind]
  cases done with
  | true =>
    have hadded := hdone rfl
    exact ⟨_, _, hstep, h.added hp hnone hadded hl (forall_contents.mp hnew), nofun, _, .putNew, hm.added hnone hadded⟩
  | false =>
    obtain ⟨rfl, hwhy⟩ := hfailed rfl
    exact ⟨w, _, hstep, h, fun _ => hwhy, m, .putNewFailed, hm⟩

theorem simulates_relookupOrAdd (hp : p.Lawful) (h : Inv p w) (hm : Represents w m)
    {oom : Bool} (hlegal : w.Legal p (.relookupOrAdd n l e oom mem))
    : Simulates p w m (.relookupOrAdd n l e oom mem) := by
  obtain ⟨hnone, hl, aPtr, l', hhandle, hhash⟩ := hlegal
  have hquiet := quiet_of_none hnone
  have hstep {done : Bool} {t' : HashTable T}
      (hadd : HashTable.relookupOrAdd p w.table aPtr l e oom mem = some (done, t'))
      : w.step p (.relookupOrAdd n l e oom mem) = some ({ w with table := t' }, .bool done) := by
    simp [World.step, hhandle, hadd, some_bind]
  cases hlive : isLiveHash aPtr.mKeyHash with
  | false =>
    refine ⟨w, .bool false, hstep ?_, h, fun _ => .inr (.inr ⟨aPtr, l', hhandle, hlive⟩), m, .relookupFailed, hm⟩
    unfold HashTable.relookupOrAdd
    rw [hlive]
    rfl
  | true =>
    have hkh : KeptHash aPtr.mKeyHash := by
      rw [hhash hlive]
      exact p.prepareHash_toNat l
    cases ht : w.table.mTable with
    | none =>
      have hrelookup : HashTable.relookupOrAdd p w.table aPtr l e oom mem
          = w.table.add { aPtr with mSlot := none } e oom mem := by
        simp [HashTable.relookupOrAdd, hlive, ht]
      have hno : ∀ x ∈ w.contents, p.matchEntry x l = false := by
        unfold World.contents
        rw [contents_nil ht]
        exact nofun
      obtain ⟨done, t', hadd, hdone, hfailed⟩ := add_spec h.counted (h.loaded hquiet)
        { aPtr with mSlot := none } hkh ht e oom mem
      cases done with
      | true =>
        have hadded := hdone rfl
        rw [hhash hlive] at hadded
        exact ⟨_, _, hstep (hrelookup.trans hadd), h.added hp hnone hadded hl (forall_contents.mp hno), nofun, _,
          .relookupAdd ((hm.holds_iff l none).mpr hno), hm.added hnone hadded⟩
      | false =>
        obtain ⟨rfl, hwhy⟩ := hfailed rfl
        exact ⟨w, _, hstep (hrelookup.trans hadd), h, fun _ => hwhy.imp_right .inl, m, .relookupFailed, hm⟩
    | some _ =>
      have hsome : w.table.mTable.isSome := by rw [ht]; rfl
      obtain ⟨⟨i, slots⟩, hfound, hmarked, hslot, hreached⟩ :=
        lookupSlot_found hp h.counted hsome (h.loaded hquiet) h.stored .ForAdd l
      rw [← hhash hlive] at hfound hreached
      have hmarkedInv := h.marked hsome hmarked
      have hmarkedMap := hm.marked hmarked
      have hlive' := isLiveAt_eq hmarkedInv.counted.valid i
      rcases hslot with ⟨e', he', hl'⟩ | ⟨⟨slot, hi, hdead⟩, hno⟩
      . refine ⟨_, .bool true, @hstep _ (w.table.setSlots slots) ?_, hmarkedInv, nofun, m,
          @FiniteMap.Step.relookupFound _ _ _ _ _ _ _ _ e' _ _ ?_, hmarkedMap⟩
        . simp only [slots_setSlots] at hlive' he'
          rw [he'] at hlive'
          simp [HashTable.relookupOrAdd, hlive, ht, hfound, hlive']
        . rw [hmarkedMap.holds_iff]
          exact ⟨mem_contents.mpr ⟨i, he'⟩, hl'⟩
      have hentry := entryAt_of_not_live hmarked.valid hi hdead
      have hrelookup : HashTable.relookupOrAdd p w.table aPtr l e oom mem
          = (w.table.setSlots slots).add { aPtr with mSlot := some i } e oom mem := by
        simp only [slots_setSlots] at hlive' hentry
        rw [hentry] at hlive'
        simp [HashTable.relookupOrAdd, hlive, ht, hfound, hlive']
      obtain ⟨done, t', hadd, hdone, hfailed⟩ := add_spec hmarkedInv.counted
        (hmarkedInv.loaded hquiet) { aPtr with mSlot := some i } hkh ⟨slot, hi, hdead, hreached rfl hentry⟩
        e oom mem
      cases done with
      | true =>
        have hadded := hdone rfl
        rw [hhash hlive] at hadded
        have hinv := Inv.added (w := { w with table := w.table.setSlots slots }) hp hmarkedInv hnone hadded hl hno
        refine ⟨_, _, hstep (hrelookup.trans hadd), hinv, nofun, _, .relookupAdd ?_, ?_⟩
        . rw [hmarkedMap.holds_iff]
          exact forall_contents.mpr hno
        . exact Represents.added (w := { w with table := w.table.setSlots slots }) hmarkedMap hnone hadded
      | false =>
        obtain ⟨rfl, hwhy⟩ := hfailed rfl
        exact ⟨_, _, hstep (hrelookup.trans hadd), hmarkedInv, fun _ => hwhy.imp_right .inl, m,
          .relookupFailed, hmarkedMap⟩

theorem exists_slot_of_entryAt {i : Nat}
    (h : entryAt slots i = some e) : ∃ slot, slots[i]? = some slot ∧ slot.mEntry = some e := by
  exact bind_eq_some_iff.mp h

theorem simulates_remove (hp : p.Lawful) (h : Inv p w) (hm : Represents w m)
    (hnone : w.enumeration = none) : Simulates p w m (.remove l mem) := by
  have hquiet := quiet_of_none hnone
  rcases lookup_spec hp h.counted (h.loaded hquiet) h.stored l with
    ⟨i, e, hlookup, he, hl⟩ | ⟨hlookup, hno⟩
  . obtain ⟨slot, hi, hslot⟩ := exists_slot_of_entryAt he
    obtain ⟨t1, ht1, hremoved⟩ := removeSlot_spec h.counted hi hslot
    obtain ⟨t', ht', hshrunk⟩ := shrinkIfUnderloaded_spec hremoved.counted mem
    have hstored := (h.stored.perm hremoved.entries).tail
    have hloaded := hremoved.loaded (h.loaded hquiet)
    have hchanged : Changed w.table t1 := by
      unfold Changed
      rw [hremoved.mGen, hremoved.mMutationCount]
      omega
    have hinv : Inv p { w with table := t' } :=
      (h.replace hnone hremoved.counted hloaded hstored hchanged).replace_rebuilt hnone hshrunk
    have hperm : (contents t'.slots).Perm (contents t1.slots) := by
      rcases hshrunk with rfl | hrebuilt
      . exact List.Perm.refl _
      . exact contents_perm hrebuilt.entries
    have hentries : (e :: contents t1.slots).Perm w.contents :=
      (contents_perm_cons hremoved.entries.symm).symm
    refine ⟨{ w with table := t' }, .unit, ?_, hinv, nofun, { m with entries := contents t1.slots },
      .remove hl (hentries.trans hm.entries.symm), hm.replace hnone hperm.symm⟩
    simp [World.step, HashTable.remove, HashTable.removePtr, hlookup, ht1, ht', some_bind]
  . refine ⟨w, .unit, ?_, h, nofun, m, .removeAbsent ?_, hm⟩
    . simp [World.step, HashTable.remove, hlookup, some_bind]
    . rw [hm.holds_iff]
      exact forall_contents.mpr hno

variable {s : HashTable T}

theorem stored_rekeyed (hp : p.Lawful) {i : Nat} (hstored : Stored p (hashedEntries t.slots))
    (hremoved : Removed t s i (kh, e))
    (hinserted : Inserted s t' (p.prepareHash l, p.setKey e k)) (hl : p.match k l = true)
    (hnew : ∀ x ∈ hashedEntries s.slots, p.matchEntry x.2 l = false)
    : Stored p (hashedEntries t'.slots) := by
  refine ((hstored.perm hremoved.entries).tail.cons hp ?_ hnew).perm hinserted.entries
  unfold HashPolicy.matchEntry
  rw [hp.getKey_setKey]
  exact hl

theorem changed_rekeyed {i : Nat}
    (hremoved : Removed t s i x) (hinserted : Inserted s t' y) : Changed t t' := by
  unfold Changed
  rw [hinserted.mGen, hremoved.mGen, hinserted.mMutationCount, hremoved.mMutationCount]
  omega

theorem contents_removed {i : Nat} (hremoved : Removed t s i (kh, e))
    : (e :: contents s.slots).Perm (contents t.slots) :=
  (contents_perm_cons hremoved.entries.symm).symm

theorem simulates_rekeyAs (hp : p.Lawful) (h : Inv p w) (hm : Represents w m)
    (hlegal : w.Legal p (.rekeyAs aOldLookup aNewLookup aNewKey mem))
    : Simulates p w m (.rekeyAs aOldLookup aNewLookup aNewKey mem) := by
  obtain ⟨hnone, hkey, hothers⟩ := hlegal
  have hquiet := quiet_of_none hnone
  rcases lookup_spec hp h.counted (h.loaded hquiet) h.stored aOldLookup with
    ⟨i, e, hlookup, he, hl⟩ | ⟨hlookup, hno⟩
  . obtain ⟨slot, hi, hslot⟩ := exists_slot_of_entryAt he
    obtain ⟨s, t1, ht1, hremoved, hinserted⟩ := rekeyWithoutRehash_spec (p := p) h.counted hi hslot aNewLookup aNewKey
    obtain ⟨t', ht', hloaded, hrehashed⟩ :=
      infallibleRehashIfOverloaded_spec hinserted.counted mem
    have hnew : ∀ x ∈ hashedEntries s.slots, p.matchEntry x.2 aNewLookup = false := by
      intro x hx
      rw [← Bool.not_eq_true]
      intro hxl
      have hmem := hremoved.entries.mem_iff.mp (mem_cons_of_mem _ hx)
      have hxold := hothers x.2 (by
        unfold World.contents
        rw [contents_eq]
        exact mem_map_of_mem hmem) hxl
      have hapart := rel_of_pairwise_cons (h.stored.perm hremoved.entries).distinct hx aOldLookup hl
      rw [hxold] at hapart
      contradiction
    have hstored := stored_rekeyed hp h.stored hremoved hinserted hkey hnew
    have hchanged := changed_rekeyed hremoved hinserted
    have hperm : (hashedEntries t'.slots).Perm (hashedEntries t1.slots) := by
      rcases hrehashed with rfl | hrebuilt
      . exact List.Perm.refl _
      . exact hrebuilt.entries
    have hinv : Inv p { w with table := t' } := by
      rcases hrehashed with rfl | hrebuilt
      . exact h.replace hnone hinserted.counted hloaded hstored hchanged
      have hlater := changed_of_rebuilt hrebuilt
      refine h.replace hnone hrebuilt.counted hloaded (hstored.perm hperm) ?_
      unfold Changed at hchanged hlater ⊢
      omega
    refine ⟨{ w with table := t' }, .bool true, ?_, hinv, nofun, _,
      @FiniteMap.Step.rekeyAs _ _ _ _ _ _ _ _ _ (contents s.slots) _ hl
        ((contents_removed hremoved).trans hm.entries.symm), hm.replace hnone ?_⟩
    . simp [World.step, HashTable.rekeyAs, rekeyAndMaybeRehash, hlookup, ht1, ht', some_bind]
    . exact ((contents_perm hperm).trans (contents_perm_cons hinserted.entries)).symm
  . refine ⟨w, .bool false, ?_, h, fun _ => forall_contents.mpr hno, m, .rekeyAbsent ?_, hm⟩
    . simp [World.step, HashTable.rekeyAs, hlookup, some_bind]
    . rw [hm.holds_iff]
      exact forall_contents.mpr hno

theorem Represents.rebuilt (hm : Represents w m) (hnone : w.enumeration = none)
    (ht : t' = w.table ∨ Rebuilt w.table t') : Represents { w with table := t' } m := by
  apply hm.replace hnone
  rcases ht with rfl | hrebuilt
  . exact hm.entries
  . exact hm.entries.trans (contents_perm hrebuilt.entries).symm

theorem simulates_reserve (h : Inv p w) (hm : Represents w m)
    (hnone : w.enumeration = none) : Simulates p w m (.reserve aLen mem) := by
  obtain ⟨done, t', ht', hrebuilt, hfailed⟩ := reserve_spec h.counted aLen mem
  refine ⟨{ w with table := t' }, .bool done, ?_, h.replace_rebuilt hnone hrebuilt, ?_, m, .reserve,
    hm.rebuilt hnone hrebuilt⟩
  . simp [World.step, ht', some_bind]
  intro hdone
  injection hdone with hdone
  exact (hfailed hdone).2

theorem simulates_compact (h : Inv p w) (hm : Represents w m)
    (hnone : w.enumeration = none) : Simulates p w m (.compact mem) := by
  obtain ⟨t', ht', hrebuilt⟩ := compact_spec h.counted mem
  refine ⟨{ w with table := t' }, .unit, ?_, h.replace_rebuilt hnone hrebuilt, nofun, m, .compact,
    hm.rebuilt hnone hrebuilt⟩
  simp [World.step, ht', some_bind]

theorem simulates_clear (h : Inv p w) (hm : Represents w m) (hnone : w.enumeration = none)
    : Simulates p w m .clear := by
  obtain ⟨hcounted, hentries, hloaded⟩ := clear_spec h.counted
  refine ⟨{ w with table := w.table.clear }, .unit, rfl, h.replace hnone hcounted hloaded ?_ ?_, nofun, _, .clear,
    hm.replace hnone ?_⟩
  . rw [hentries]
    exact .nil p
  . exact ⟨Nat.le_refl _, Nat.le_succ _, .inr (Nat.lt_succ_self _)⟩
  . rw [contents_eq, hentries]
    exact List.Perm.refl _

theorem simulates_skip (h : Inv p w) (hm : Represents w m) {call : Call T Key Lookup} {it : ModIterator}
    {i rounds : Nat} (hi : i ≤ w.table.slots.length) (hrounds : w.table.slots.length - i ≤ rounds)
    (hend : it.mEnd = w.table.slots.length) (hvalid : it.mValidEntry = true)
    (hcur : it.mCur = ModIterator.skip w.table w.table.slots.length rounds i)
    (hstep : w.step p call = some ({ w with enumeration := some it }, .unit))
    (hmap : ∀ (current : Option T) (rest : List T),
      (current.toList ++ rest).Perm (contents (w.table.slots.drop i)) → (current = none → rest = [])
      → m.Step p call .unit { m with enumeration := some ⟨current, rest, current.isNone⟩ })
    (hopen : it.mRekeyed = false → w.Quiet)
    : Simulates p w m call := by
  obtain ⟨hle, hcontents, hlive⟩ := skip_spec h.counted.valid hi hrounds
  rw [← hcur] at hle hcontents hlive
  rw [contents_drop] at hcontents
  have hnil : entryAt w.table.slots it.mCur = none → it.mCur = w.table.slots.length := by
    intro hnone
    by_contra hne
    have := hlive (by omega)
    rw [hnone] at this
    contradiction
  have hdone : it.done = (entryAt w.table.slots it.mCur).isNone := by
    unfold ModIterator.done
    rw [hend, Bool.eq_iff_iff, decide_eq_true_iff, isNone_iff_eq_none]
    refine ⟨fun heq => ?_, hnil⟩
    unfold entryAt
    rw [heq, List.getElem?_eq_none (Nat.le_refl _)]
    rfl
  refine ⟨_, .unit, hstep, ⟨h.counted, h.stored, fun hq => h.loaded (hopen (hq it rfl)), h.handles, ?_⟩, nofun, _,
    hmap (entryAt w.table.slots it.mCur) (contents (w.table.slots.drop (it.mCur + 1))) ?_ ?_,
    hm.entries, .some ⟨?_, List.Perm.refl _, ?_⟩⟩
  . intro it' hit'
    injection hit' with hit'
    subst hit'
    exact ⟨hend, hle, fun _ => hlive⟩
  . rw [hcontents]
  . intro hnone
    rw [hnil hnone, drop_eq_nil_of_le (by omega)]
    rfl
  . rw [hvalid]
    rfl
  . exact hdone.symm

theorem simulates_modIter (h : Inv p w) (hm : Represents w m) (hnone : w.enumeration = none)
    : Simulates p w m .modIter := by
  have hcap := h.counted.capacity_eq
  refine @simulates_skip _ _ _ _ _ _ h hm _ (ModIterator.init w.table) _ _ (Nat.zero_le _) (Nat.sub_le _ 0) hcap rfl
    ?_ rfl ?_ (fun _ => quiet_of_none hnone)
  . unfold ModIterator.init
    rw [hcap]
  . intro current rest hperm hrest
    exact .modIter (hperm.trans hm.entries.symm) hrest

theorem exists_enumeration (hm : Represents w m) (hit : w.enumeration = some it)
    : ∃ e, m.enumeration = some e ∧ Tracks w.table it e := by
  have henumeration := hm.enumeration
  rw [hit] at henumeration
  cases he : m.enumeration with
  | none =>
    rw [he] at henumeration
    cases henumeration
  | some e =>
    rw [he] at henumeration
    cases henumeration with
    | some h => exact ⟨e, rfl, h⟩

theorem simulates_iterNext (h : Inv p w) (hm : Represents w m)
    (hit : w.enumeration = some it) (hdone : it.done = false) : Simulates p w m .iterNext := by
  obtain ⟨e, he, htracks⟩ := exists_enumeration hm hit
  have hok := h.enumeration it hit
  have hlt : it.mCur < w.table.slots.length := by
    unfold ModIterator.done at hdone
    rw [decide_eq_false_iff_not, hok.mEnd] at hdone
    have := hok.mCur
    omega
  have hrounds : w.table.slots.length - (it.mCur + 1) ≤ it.mEnd - (it.mCur + 1) := by
    rw [hok.mEnd]
  refine @simulates_skip _ _ _ _ _ _ h hm _ (it.next w.table) _ _ hlt hrounds hok.mEnd rfl ?_ ?_ ?_ ?_
  . unfold ModIterator.next
    rw [hok.mEnd]
  . simp [World.step, hit, some_bind]
  . exact fun current rest hperm hrest => .iterNext he (hperm.trans htracks.rest.symm) hrest
  intro hrekeyed it' hit'
  rw [hit, Option.some.injEq] at hit'
  rw [← hit']
  exact hrekeyed

theorem simulates_iterDone (h : Inv p w) (hm : Represents w m)
    (hit : w.enumeration = some it) : Simulates p w m .iterDone := by
  obtain ⟨e, he, htracks⟩ := exists_enumeration hm hit
  refine ⟨w, .bool e.atEnd, ?_, h, ?_, m, .iterDone he, hm⟩
  . simp [World.step, hit, some_bind, htracks.atEnd]
  intro hdone
  injection hdone with hdone
  exact ⟨it, hit, htracks.atEnd ▸ hdone⟩

theorem simulates_iterGet (h : Inv p w) (hm : Represents w m) (hat : w.AtEntry it)
    : Simulates p w m .iterGet := by
  obtain ⟨hit, hvalid, -⟩ := hat
  obtain ⟨e, he, htracks⟩ := exists_enumeration hm hit
  refine ⟨w, .entry e.current, ?_, h, nofun, m, .iterGet he, hm⟩
  have hcurrent := htracks.current
  rw [hvalid] at hcurrent
  simp only [World.step, hit, some_bind, hcurrent]
  rfl

theorem exists_current (h : Inv p w) (hat : w.AtEntry it)
    : ∃ slot e, w.table.slots[it.mCur]? = some slot ∧ slot.mEntry = some e
      ∧ entryAt w.table.slots it.mCur = some e := by
  obtain ⟨hit, hvalid, hdone⟩ := hat
  have hok := h.enumeration it hit
  have hlt : it.mCur < w.table.slots.length := by
    unfold ModIterator.done at hdone
    rw [decide_eq_false_iff_not, hok.mEnd] at hdone
    have := hok.mCur
    omega
  obtain ⟨e, he⟩ := isSome_iff_exists.mp (hok.entry hvalid hlt)
  obtain ⟨slot, hi, hslot⟩ := exists_slot_of_entryAt he
  exact ⟨slot, e, hi, hslot, he⟩

theorem length_removed {i : Nat} (h : Counted t) (hremoved : Removed t s i x) : s.slots.length = t.slots.length := by
  rw [← hremoved.counted.capacity_eq, hremoved.capacity, h.capacity_eq]

theorem length_inserted (h : Counted t) (hinserted : Inserted t s x) : s.slots.length = t.slots.length := by
  rw [← hinserted.counted.capacity_eq, hinserted.capacity, h.capacity_eq]

theorem rest_removed {i : Nat} (h : Counted t) (hremoved : Removed t s i x)
    : contents (s.slots.drop (i + 1)) = contents (t.slots.drop (i + 1)) := by
  refine contents_drop_congr (length_removed h hremoved) fun k hk => ?_
  rw [hremoved.slots, if_neg (by omega)]

theorem simulates_iterRemove (h : Inv p w) (hm : Represents w m) (hat : w.AtEntry it)
    : Simulates p w m .iterRemove := by
  obtain ⟨slot, x, hi, hslot, hentry⟩ := exists_current h hat
  obtain ⟨hit, hvalid, -⟩ := hat
  obtain ⟨e, he, htracks⟩ := exists_enumeration hm hit
  have hok := h.enumeration it hit
  obtain ⟨t', ht', hremoved⟩ := removeSlot_spec h.counted hi hslot
  have hlength := length_removed h.counted hremoved
  have hcurrent : e.current = some x := by
    rw [htracks.current, hvalid]
    exact hentry
  refine ⟨{ w with table := t', enumeration := some { it with mRemoved := true, mValidEntry := false } }, .unit, ?_,
    ⟨hremoved.counted, (h.stored.perm hremoved.entries).tail, fun hquiet => ?_, fun x hx => ?_, fun it' hit' => ?_⟩,
    nofun, _, @FiniteMap.Step.iterRemove _ _ _ _ _ _ _ (contents t'.slots) he hcurrent ?_, List.Perm.refl _,
    .some ⟨rfl, ?_, htracks.atEnd⟩⟩
  . simp [World.step, hit, ModIterator.remove, ht', some_bind]
  . refine hremoved.loaded (h.loaded fun it' hit' => ?_)
    rw [hit, Option.some.injEq] at hit'
    subst hit'
    exact hquiet { it with mRemoved := true, mValidEntry := false } rfl
  . apply (h.handles x hx).changed
    unfold Changed
    rw [hremoved.mGen, hremoved.mMutationCount]
    omega
  . injection hit' with hit'
    subst hit'
    refine ⟨?_, ?_, nofun⟩
    . rw [hlength]
      exact hok.mEnd
    . rw [hlength]
      exact hok.mCur
  . exact (contents_removed hremoved).trans hm.entries.symm
  . rw [rest_removed h.counted hremoved]
    exact htracks.rest

theorem simulates_iterRekey (hp : p.Lawful) (h : Inv p w) (hm : Represents w m)
    (hat : w.AtEntry it) (hl : p.match k l = true)
    (hothers : ∀ j x, entryAt w.table.slots j = some x → p.matchEntry x l = true → j = it.mCur)
    : Simulates p w m (.iterRekey l k) := by
  obtain ⟨slot, x, hi, hslot, hentry⟩ := exists_current h hat
  obtain ⟨hit, hvalid, -⟩ := hat
  obtain ⟨e, he, htracks⟩ := exists_enumeration hm hit
  have hok := h.enumeration it hit
  obtain ⟨s, t', ht', hremoved, hinserted⟩ := rekeyWithoutRehash_spec (p := p) h.counted hi hslot l k
  have hlength := (length_inserted hremoved.counted hinserted).trans (length_removed h.counted hremoved)
  have hcurrent : e.current = some x := by
    rw [htracks.current, hvalid]
    exact hentry
  have hnew : ∀ y ∈ contents s.slots, p.matchEntry y l = false := by
    intro y hy
    rw [← Bool.not_eq_true]
    intro hyl
    obtain ⟨j, hj⟩ := mem_contents.mp hy
    rw [hremoved.slots] at hj
    split at hj
    next => contradiction
    next hne => exact hne (hothers j y hj hyl)
  have hrest : (contents (t'.slots.drop (it.mCur + 1))).Perm e.rest
      ∨ (contents (t'.slots.drop (it.mCur + 1))).Perm (p.setKey x k :: e.rest) := by
    obtain ⟨q, hq, hold, hsame⟩ := hinserted.slots
    have hrest := contents_drop_insert (length_inserted hremoved.counted hinserted) hq hold hsame (it.mCur + 1)
    rw [rest_removed h.counted hremoved] at hrest
    exact hrest.imp (·.trans htracks.rest.symm) (·.trans (htracks.rest.symm.cons _))
  refine ⟨{ w with table := t', enumeration := some { it with mRekeyed := true, mValidEntry := false } }, .unit, ?_,
    ⟨hinserted.counted, stored_rekeyed hp h.stored hremoved hinserted hl (forall_contents.mp hnew),
      fun hquiet => ?_, fun x hx => ?_, fun it' hit' => ?_⟩,
    nofun, _, @FiniteMap.Step.iterRekey _ _ _ _ _ _ _ _ _ (contents s.slots) _ he hcurrent ?_ hrest,
    (contents_perm_cons hinserted.entries).symm, .some ⟨rfl, List.Perm.refl _, htracks.atEnd⟩⟩
  . simp [World.step, hit, ModIterator.rekey, ht', some_bind]
  . have := hquiet _ rfl
    contradiction
  . exact (h.handles x hx).changed (changed_rekeyed hremoved hinserted)
  . injection hit' with hit'
    subst hit'
    refine ⟨?_, ?_, nofun⟩
    . rw [hlength]
      exact hok.mEnd
    . rw [hlength]
      exact hok.mCur
  . exact (contents_removed hremoved).trans hm.entries.symm

theorem close_spec (h : Counted t) (hloaded : it.mRekeyed = false → Loaded t) (mem mem' : List Bool)
    : ∃ t', it.close t mem mem' = some t' ∧ Counted t' ∧ Loaded t'
      ∧ (hashedEntries t'.slots).Perm (hashedEntries t.slots)
      ∧ (t' = t ∨ Changed t t') := by
  have hrehash : ∃ t1, (if it.mRekeyed then
        infallibleRehashIfOverloaded { t with mGen := t.mGen + 1 } mem else some t) = some t1
      ∧ Counted t1 ∧ Loaded t1
      ∧ (hashedEntries t1.slots).Perm (hashedEntries t.slots)
      ∧ (t1 = t ∨ Changed t t1) := by
    cases hrekeyed : it.mRekeyed with
    | false => exact ⟨t, rfl, h, hloaded hrekeyed, List.Perm.refl _, .inl rfl⟩
    | true =>
      have hnext : Counted { t with mGen := t.mGen + 1 } :=
        ⟨h.shift, h.slots, h.entryCount, h.removedCount, h.entryLoad⟩
      have hchanged : Changed t { t with mGen := t.mGen + 1 } :=
        ⟨Nat.le_succ _, Nat.le_refl _, .inl (Nat.lt_succ_self _)⟩
      obtain ⟨t1, ht1, hloaded1, hrebuilt⟩ := infallibleRehashIfOverloaded_spec hnext mem
      rcases hrebuilt with rfl | hrebuilt
      . exact ⟨_, ht1, hnext, hloaded1, List.Perm.refl _, .inr hchanged⟩
      refine ⟨t1, ht1, hrebuilt.counted, hloaded1, hrebuilt.entries, .inr ?_⟩
      have hlater := changed_of_rebuilt hrebuilt
      unfold Changed at hchanged hlater ⊢
      omega
  obtain ⟨t1, ht1, hcounted, hloaded1, hperm, hchanged⟩ := hrehash
  have hclose : it.close t mem mem' = (if it.mRekeyed then
        infallibleRehashIfOverloaded { t with mGen := t.mGen + 1 } mem else some t).bind fun t =>
          if it.mRemoved then t.compact mem' else some t := by
    unfold ModIterator.close
    cases it.mRekeyed <;> rfl
  rw [hclose, ht1, bind_some]
  cases it.mRemoved with
  | false => exact ⟨t1, rfl, hcounted, hloaded1, hperm, hchanged⟩
  | true =>
    obtain ⟨t', ht', hrebuilt⟩ := compact_spec hcounted mem'
    rcases hrebuilt with rfl | hrebuilt
    . exact ⟨t', ht', hcounted, hloaded1, hperm, hchanged⟩
    refine ⟨t', ht', hrebuilt.counted, hrebuilt.loaded, hrebuilt.entries.trans hperm, .inr ?_⟩
    have hlater := changed_of_rebuilt hrebuilt
    rcases hchanged with rfl | hchanged
    . exact hlater
    . unfold Changed at hchanged hlater ⊢
      omega

theorem simulates_iterClose (h : Inv p w) (hm : Represents w m)
    (hit : w.enumeration = some it) : Simulates p w m (.iterClose mem mem') := by
  have hloaded : it.mRekeyed = false → Loaded w.table := by
    refine fun hrekeyed => h.loaded fun it' hit' => ?_
    rw [hit, Option.some.injEq] at hit'
    rw [← hit']
    exact hrekeyed
  obtain ⟨t', ht', hcounted, hloaded', hperm, hchanged⟩ := close_spec h.counted hloaded mem mem'
  refine ⟨{ w with table := t', enumeration := none }, .unit, ?_,
    ⟨hcounted, h.stored.perm hperm, fun _ => hloaded', fun x hx => ?_, nofun⟩, nofun, _, .iterClose,
    hm.entries.trans (contents_perm hperm).symm, .none⟩
  . simp [World.step, hit, ht', some_bind]
  rcases hchanged with rfl | hchanged
  . exact h.handles x hx
  . exact (h.handles x hx).changed hchanged

theorem simulates (hp : p.Lawful) (h : Inv p w) (hm : Represents w m) {call : Call T Key Lookup}
    (hlegal : w.Legal p call) : Simulates p w m call := by
  cases call with
  | lookup l => exact simulates_lookup hp h hm hlegal
  | lookupForAdd l ensured => exact simulates_lookupForAdd hp h hm ensured hlegal
  | add n e oom mem => exact simulates_add hp h hm hlegal
  | relookupOrAdd n l e oom mem => exact simulates_relookupOrAdd hp h hm hlegal
  | putNew l e oom ensured mem => exact simulates_putNew hp h hm hlegal
  | remove l mem => exact simulates_remove hp h hm hlegal
  | rekeyAs aOldLookup aNewLookup aNewKey mem => exact simulates_rekeyAs hp h hm hlegal
  | reserve aLen mem => exact simulates_reserve h hm hlegal
  | clear => exact simulates_clear h hm hlegal
  | compact mem => exact simulates_compact h hm hlegal
  | modIter => exact simulates_modIter h hm hlegal
  | iterDone =>
    obtain ⟨it, hit⟩ := isSome_iff_exists.mp hlegal
    exact simulates_iterDone h hm hit
  | iterGet =>
    obtain ⟨it, hat⟩ := hlegal
    exact simulates_iterGet h hm hat
  | iterNext =>
    obtain ⟨it, hit, hdone⟩ := hlegal
    exact simulates_iterNext h hm hit hdone
  | iterRemove =>
    obtain ⟨it, hat⟩ := hlegal
    exact simulates_iterRemove h hm hat
  | iterRekey l k =>
    obtain ⟨it, hat, hl, hothers⟩ := hlegal
    exact simulates_iterRekey hp h hm hat hl hothers
  | iterClose mem mem' =>
    obtain ⟨it, hit⟩ := isSome_iff_exists.mp hlegal
    exact simulates_iterClose h hm hit

end Steps

inductive Run (p : HashPolicy T Key Lookup) :
    World T Lookup → List (Call T Key Lookup × Answer T) → World T Lookup → Prop where
  | nil (w : World T Lookup) : Run p w [] w
  | cons {w w' w'' : World T Lookup} {call : Call T Key Lookup} {a : Answer T}
    {trace : List (Call T Key Lookup × Answer T)}
    : w.Legal p call → w.step p call = some (w', a) → Run p w' trace w'' → Run p w ((call, a) :: trace) w''

theorem Run.append (h : Run p w trace w') (h' : Run p w' trace' w'')
    : Run p w (trace ++ trace') w'' := by
  induction h with
  | nil => exact h'
  | cons hlegal hstep _ ih => exact .cons hlegal hstep (ih h')

inductive FiniteMap.Run (p : HashPolicy T Key Lookup) :
    FiniteMap T → List (Call T Key Lookup × Answer T) → FiniteMap T → Prop where
  | nil (m : FiniteMap T) : Run p m [] m
  | cons {m m' m'' : FiniteMap T} {call : Call T Key Lookup} {a : Answer T}
    {trace : List (Call T Key Lookup × Answer T)}
    : m.Step p call a m' → Run p m' trace m'' → Run p m ((call, a) :: trace) m''

structure Sound (p : HashPolicy T Key Lookup) (w : World T Lookup) : Prop where
  reachable : Reachable (entryPath w.table.mHashShift) (views w.table.slots)
  distinct : w.contents.Pairwise fun x y => ∀ l, p.matchEntry x l = true → p.matchEntry y l = false
  found : w.Quiet → ∀ e ∈ w.contents, ∀ l, p.matchEntry e l = true
    → ∃ i, HashTable.lookup p w.table l = some (some i) ∧ entryAt w.table.slots i = some e
  mEntryCount : w.table.mEntryCount = w.table.slots.countP EntrySlot.isLive
  mRemovedCount : w.table.mRemovedCount = w.table.slots.countP EntrySlot.isRemoved
  free : w.Quiet → w.table.mTable.isSome → ∃ slot ∈ w.table.slots, slot.isFree = true
  notLive : w.table.mTable.isSome → ∃ slot ∈ w.table.slots, slot.isLive = false
  rehash : ∃ t', w.table.rehashTableInPlace = some t' ∧ (contents t'.slots).Perm w.contents

section Runs

variable {p : HashPolicy T Key Lookup}

theorem inv_init (p : HashPolicy T Key Lookup) (h : aLen ≤ sMaxInit)
    : Inv p (World.init aLen) := by
  have hshift : ShiftInRange (HashTable.hashShift aLen) := by
    obtain ⟨shift, hshift, hpow⟩ := isCapacity_bestCapacity (bestCapacity_le h)
    unfold HashTable.hashShift
    rw [hpow, ceilingLog2_shift hshift]
    exact hshift
  exact ⟨⟨hshift, nofun, rfl, rfl, Nat.zero_le _⟩, .nil p, fun _ => Nat.zero_le _, nofun, nofun⟩

theorem FiniteMap.Step.entries_eq {m m' : FiniteMap T} {call : Call T Key Lookup}
    (h : m.Step p call a m') (ha : a = .bool false) : m'.entries = m.entries := by
  cases h <;> first | rfl | cases ha

theorem run_simulates (hp : p.Lawful) (hrun : Run p w trace w') (h : Inv p w) (hm : Represents w m)
    : Inv p w' ∧ ∃ m', m.Run p trace m' ∧ Represents w' m' := by
  induction hrun generalizing m with
  | nil => exact ⟨h, m, .nil m, hm⟩
  | cons hlegal hstep _ ih =>
    obtain ⟨w1, a, hstep', hinv, -, m1, hmap, hm1⟩ := simulates hp h hm hlegal
    rw [hstep, Option.some.injEq] at hstep'
    cases hstep'
    obtain ⟨hinv', m', hrun', hm'⟩ := ih hinv hm1
    exact ⟨hinv', m', .cons hmap hrun', hm'⟩

theorem countP_isLive (h : AllValid slots)
    : slots.countP EntrySlot.isLive = (hashedEntries slots).length := by
  unfold hashedEntries views entries
  rw [filterMap_map, length_filterMap_eq_countP]
  apply countP_congr
  intro slot hslot
  rw [Function.comp, (h slot hslot).entry]

theorem countP_isRemoved (h : AllValid slots)
    : slots.countP EntrySlot.isRemoved = removedCount (views slots) := by
  unfold views removedCount
  rw [countP_map]
  apply countP_congr
  intro slot hslot
  rw [Function.comp, (h slot hslot).isRemoved_view]

theorem Inv.sound (hp : p.Lawful) (h : Inv p w) : Sound p w := by
  constructor
  . cases ht : w.table.mTable with
    | none =>
      unfold HashTable.slots
      rw [ht]
      exact nofun
    | some slots => exact (h.counted.slots (by rw [ht]; rfl)).reachable
  . unfold World.contents
    rw [contents_eq]
    exact pairwise_map.mpr h.stored.distinct
  . intro hquiet e he l hl
    rcases lookup_spec hp h.counted (h.loaded hquiet) h.stored l with
      ⟨i, e', hlookup, he', hl'⟩ | ⟨hlookup, hno⟩
    . refine ⟨i, hlookup, ?_⟩
      have hmem' := mem_contents.mpr ⟨i, he'⟩
      unfold World.contents at he
      rw [contents_eq] at he hmem'
      obtain ⟨x, hx, rfl⟩ := mem_map.mp he
      obtain ⟨x', hx', rfl⟩ := mem_map.mp hmem'
      rw [he', h.stored.eq_of_match hx' hx hl' hl]
    . have := (forall_contents (P := fun x => p.matchEntry x l = false)).mpr hno e he
      rw [hl] at this
      contradiction
  . rw [countP_isLive h.counted.valid, h.counted.entryCount]
  . rw [countP_isRemoved h.counted.valid, h.counted.removedCount]
  . intro hquiet hsome
    obtain ⟨j, slot, hj, hfree⟩ := exists_free_of_loaded h.counted hsome (h.loaded hquiet)
    exact ⟨slot, mem_of_getElem? hj, hfree⟩
  . intro hsome
    have hlt : (hashedEntries w.table.slots).length < w.table.slots.length := by
      have hload := h.counted.entryLoad
      have hpos := h.counted.isCapacity.pos
      have hcap : w.table.capacity = w.table.rawCapacity := by
        unfold HashTable.capacity
        rw [hsome]
        rfl
      rw [h.counted.entryCount, ← h.counted.capacity_eq]
      omega
    obtain ⟨j, slot, hj, hdead⟩ := exists_not_live_slot h.counted.valid hlt
    exact ⟨slot, mem_of_getElem? hj, hdead⟩
  . obtain ⟨t', ht', hrebuilt⟩ := rehashTableInPlace_spec h.counted
    exact ⟨t', ht', contents_perm hrebuilt.entries⟩

theorem run_refines_map (hp : p.Lawful) {aLen : Nat} (hlen : aLen ≤ sMaxInit)
    {trace : List (Call T Key Lookup × Answer T)} {w : World T Lookup} (hrun : Run p (World.init aLen) trace w)
    : (∃ m, FiniteMap.Run p ⟨[], none⟩ trace m ∧ Represents w m) ∧ Sound p w
      ∧ ∀ call, w.Legal p call → ∃ w' a, w.step p call = some (w', a)
        ∧ (a = .bool false → w.Refused p call ∧ (w'.contents).Perm w.contents) := by
  obtain ⟨hinv, m, hmap, hm⟩ := run_simulates hp hrun (inv_init p hlen)
    (⟨List.Perm.refl _, .none⟩ : Represents _ ⟨[], none⟩)
  refine ⟨⟨m, hmap, hm⟩, hinv.sound hp, fun call hlegal => ?_⟩
  obtain ⟨w', a, hstep, hinv', hrefused, m', hmap', hm'⟩ := simulates hp hinv hm hlegal
  refine ⟨w', a, hstep, fun ha => ⟨hrefused ha, ?_⟩⟩
  have hentries := hm'.entries
  rw [hmap'.entries_eq ha] at hentries
  exact hentries.symm.trans hm.entries

end Runs

def numberPolicy : HashPolicy Nat Nat Nat := ⟨fun l => BitVec.ofNat 32 l, fun k l => k == l, id, fun _ k => k⟩

theorem numberPolicy_lawful : numberPolicy.Lawful := by
  constructor
  . intro k l l' h h'
    rw [← eq_of_beq h, ← eq_of_beq h']
  . intro k k' l l' h h' h''
    rw [← eq_of_beq h', eq_of_beq h, ← eq_of_beq h'']
    exact beq_self_eq_true k'
  . exact fun _ _ => rfl

def worldOf (slots : List (EntrySlot Nat)) (mEntryCount mMutationCount : Nat) : World Nat Nat :=
  ⟨⟨1, 30, some slots, mEntryCount, 0, mMutationCount⟩, [], none⟩

def threeEntries : World Nat Nat :=
  worldOf [⟨0x3c6ef373#32, some 2⟩, .free, ⟨0x1715609c#32, some 5⟩, ⟨0xffffffff#32, some 0⟩] 3 3

def putNew (n : Nat) : Call Nat Nat Nat × Answer Nat := (.putNew n n true true [true], .bool true)

theorem run_threeEntries : Run numberPolicy (World.init 0) [putNew 0, putNew 2, putNew 5] threeEntries := by
  have h0 : (World.init 0).step numberPolicy (putNew 0).1
      = some (worldOf [.free, .free, .free, ⟨0xfffffffe#32, some 0⟩] 1 1, .bool true) := by decide
  have h2 : (worldOf [.free, .free, .free, ⟨0xfffffffe#32, some 0⟩] 1 1).step numberPolicy (putNew 2).1
      = some (worldOf [⟨0x3c6ef372#32, some 2⟩, .free, .free, ⟨0xfffffffe#32, some 0⟩] 2 2, .bool true) := by decide
  have h5 : (worldOf [⟨0x3c6ef372#32, some 2⟩, .free, .free, ⟨0xfffffffe#32, some 0⟩] 2 2).step numberPolicy
      (putNew 5).1 = some (threeEntries, .bool true) := by decide
  refine .cons ⟨rfl, rfl, ?_⟩ h0 (.cons ⟨rfl, rfl, ?_⟩ h2 (.cons ⟨rfl, rfl, ?_⟩ h5 (.nil _))) <;> decide

theorem run_refines_threeEntries
    : (∃ m, FiniteMap.Run numberPolicy ⟨[], none⟩ [putNew 0, putNew 2, putNew 5] m ∧ Represents threeEntries m)
      ∧ Sound numberPolicy threeEntries
      ∧ ∀ call, threeEntries.Legal numberPolicy call → ∃ w' a, threeEntries.step numberPolicy call = some (w', a)
        ∧ (a = .bool false → threeEntries.Refused numberPolicy call ∧ (w'.contents).Perm threeEntries.contents) :=
  run_refines_map numberPolicy_lawful (by decide) run_threeEntries

def enumerated : World Nat Nat := { threeEntries with enumeration := some ⟨0, 4, false, false, true⟩ }

-- An entry that has been rekeyed during an enumeration leaves its slot removed and can take the last free one.
theorem iterRekey_not_free : ¬∀ (trace : List (Call Nat Nat Nat × Answer Nat)) (w : World Nat Nat),
    Run numberPolicy (World.init 0) trace w → w.table.mTable.isSome → ∃ slot ∈ w.table.slots, slot.isFree = true := by
  intro hfree
  have hiter : threeEntries.step numberPolicy .modIter = some (enumerated, .unit) := by decide
  have hmodIter : threeEntries.Legal numberPolicy .modIter := rfl
  have hrekey : enumerated.step numberPolicy (.iterRekey 1 1)
      = some (⟨⟨1, 30, some [.removeLive, ⟨0x9e3779b8#32, some 1⟩, ⟨0x1715609d#32, some 5⟩,
        ⟨0xffffffff#32, some 0⟩], 3, 1, 5⟩, [], some ⟨0, 4, true, false, false⟩⟩, .unit) := by decide
  have hiterRekey : enumerated.Legal numberPolicy (.iterRekey 1 1) := by
    refine ⟨_, ⟨rfl, rfl, rfl⟩, rfl, fun j x hx hmatch => ?_⟩
    obtain rfl := eq_of_beq hmatch
    match j, hx with
    | 0, hx => contradiction
    | 1, hx => contradiction
    | 2, hx => contradiction
    | 3, hx => contradiction
    | j + 4, hx => contradiction
  have hrun := run_threeEntries.append (.cons hmodIter hiter (.cons hiterRekey hrekey (.nil _)))
  exact absurd (hfree _ _ hrun rfl) (by decide)

end HashTables

end SpiderMonkey
