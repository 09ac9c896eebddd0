import Mathlib.Data.Int.NatAbs

/-!
This module contains the open-addressed hash table with double hashing, whose slots keep the hash of
their entry and have their state and collision bit folded into it.
-/

namespace SpiderMonkey

abbrev HashNumber := BitVec 32

def kHashNumberBits : Nat := 32
def kGoldenRatioU32 : HashNumber := 0x9E3779B9#32

def ScrambleHashCode (h : HashNumber) : HashNumber := h * kGoldenRatioU32

def CeilingLog2 (n : Nat) : Nat := if n ≤ 1 then 0 else (n - 1).log2 + 1

def RoundUpPow2 (n : Nat) : Nat := 2 ^ CeilingLog2 n

def sFreeKey : HashNumber := 0#32
def sRemovedKey : HashNumber := 1#32
def sCollisionBit : HashNumber := 1#32

def isLiveHash (hash : HashNumber) : Bool := sRemovedKey < hash

structure EntrySlot (T : Type) where
  mKeyHash : HashNumber
  mEntry : Option T
deriving DecidableEq, Repr

namespace EntrySlot

variable {T : Type}

def free : EntrySlot T := ⟨sFreeKey, none⟩

def isFree (s : EntrySlot T) : Bool := s.mKeyHash = sFreeKey
def isRemoved (s : EntrySlot T) : Bool := s.mKeyHash = sRemovedKey
def isLive (s : EntrySlot T) : Bool := isLiveHash s.mKeyHash

def setCollision (s : EntrySlot T) : EntrySlot T := { s with mKeyHash := s.mKeyHash ||| sCollisionBit }
def unsetCollision (s : EntrySlot T) : EntrySlot T :=
  { s with mKeyHash := s.mKeyHash &&& ~~~sCollisionBit }
def hasCollision (s : EntrySlot T) : Bool := s.mKeyHash &&& sCollisionBit ≠ 0#32
def getKeyHash (s : EntrySlot T) : HashNumber := s.mKeyHash &&& ~~~sCollisionBit
def matchHash (s : EntrySlot T) (hn : HashNumber) : Bool := s.mKeyHash &&& ~~~sCollisionBit = hn

def removeLive : EntrySlot T := ⟨sRemovedKey, none⟩
def clearLive : EntrySlot T := ⟨sFreeKey, none⟩
def setLive (aHashNumber : HashNumber) (e : T) : EntrySlot T := ⟨aHashNumber, some e⟩

end EntrySlot

structure HashPolicy (T Key Lookup : Type) where
  hash : Lookup → HashNumber
  «match» : Key → Lookup → Bool
  getKey : T → Key
  setKey : T → Key → T

namespace HashPolicy

variable {T Key Lookup : Type}

def prepareHash (p : HashPolicy T Key Lookup) (aLookup : Lookup) : HashNumber :=
  let keyHash := ScrambleHashCode (p.hash aLookup)
  let keyHash := if isLiveHash keyHash then keyHash else keyHash - (sRemovedKey + 1#32)
  keyHash &&& ~~~sCollisionBit

def matchEntry (p : HashPolicy T Key Lookup) (e : T) (aLookup : Lookup) : Bool :=
  p.match (p.getKey e) aLookup

end HashPolicy

structure HashTable (T : Type) where
  mGen : Nat
  mHashShift : Nat
  mTable : Option (List (EntrySlot T))
  mEntryCount : Nat
  mRemovedCount : Nat
  mMutationCount : Nat
deriving DecidableEq, Repr

structure AddPtr where
  mSlot : Option Nat
  mKeyHash : HashNumber
  mGeneration : Nat
  mMutationCount : Nat
deriving DecidableEq, Repr

structure DoubleHash where
  mHash2 : HashNumber
  mSizeMask : HashNumber
deriving DecidableEq, Repr

inductive LookupReason where
  | ForNonAdd
  | ForAdd
deriving DecidableEq, Repr

inductive RebuildStatus where
  | NotOverloaded
  | Rehashed
  | RehashFailed
deriving DecidableEq, Repr

namespace HashTable

variable {T Key Lookup : Type}

def sMinCapacity : Nat := 4
def sMaxInit : Nat := 2 ^ 29
def sMaxCapacity : Nat := 2 ^ 30
def sAlphaDenominator : Nat := 4
def sMinAlphaNumerator : Nat := 1
def sMaxAlphaNumerator : Nat := 3

def bestCapacity (aLen : Nat) : Nat :=
  let capacity := (aLen * sAlphaDenominator + sMaxAlphaNumerator - 1) / sMaxAlphaNumerator
  if capacity < sMinCapacity then sMinCapacity else RoundUpPow2 capacity

def hashShift (aLen : Nat) : Nat := kHashNumberBits - CeilingLog2 (bestCapacity aLen)

-- The initial length is at most `sMaxInit`.
def init (aLen : Nat) : HashTable T := ⟨0, hashShift aLen, none, 0, 0, 0⟩

def slots (t : HashTable T) : List (EntrySlot T) := t.mTable.getD []

def rawCapacity (t : HashTable T) : Nat := 2 ^ (kHashNumberBits - t.mHashShift)

def capacity (t : HashTable T) : Nat := if t.mTable.isSome then t.rawCapacity else 0

def empty (t : HashTable T) : Bool := t.mEntryCount = 0

def hash1 (t : HashTable T) (aHash0 : HashNumber) : HashNumber := aHash0 >>> t.mHashShift

def hash2 (t : HashTable T) (aCurKeyHash : HashNumber) : DoubleHash :=
  let sizeLog2 := kHashNumberBits - t.mHashShift
  ⟨((aCurKeyHash <<< sizeLog2) >>> t.mHashShift) ||| 1#32, (1#32 <<< sizeLog2) - 1#32⟩

def applyDoubleHash (aHash1 : HashNumber) (aDoubleHash : DoubleHash) : HashNumber :=
  (aHash1 - aDoubleHash.mHash2) &&& aDoubleHash.mSizeMask

-- Below, `none` is an access out of bounds or a loop that does not end. A probe sees every slot within
-- as many rounds as there are slots.

def slotMatches (p : HashPolicy T Key Lookup) (slot : EntrySlot T) (aKeyHash : HashNumber)
    (aLookup : Lookup) : Bool :=
  slot.matchHash aKeyHash && slot.mEntry.any (p.matchEntry · aLookup)

def lookupLoop (p : HashPolicy T Key Lookup) (reason : LookupReason) (aLookup : Lookup)
    (aKeyHash : HashNumber) (dh : DoubleHash) :
    Nat → List (EntrySlot T) → HashNumber → Option Nat → Option (Nat × List (EntrySlot T))
  | 0, _, _, _ => none
  | rounds + 1, slots, h1, firstRemoved => do
    let slot ← slots[h1.toNat]?
    let isFirst := decide (reason = .ForAdd) && firstRemoved.isNone
    let firstRemoved := if isFirst && slot.isRemoved then some h1.toNat else firstRemoved
    let slots :=
      if isFirst && !slot.isRemoved then slots.set h1.toNat slot.setCollision else slots
    let h1 := applyDoubleHash h1 dh
    let slot ← slots[h1.toNat]?
    if slot.isFree then some (firstRemoved.getD h1.toNat, slots)
    else if slotMatches p slot aKeyHash aLookup then some (h1.toNat, slots)
    else lookupLoop p reason aLookup aKeyHash dh rounds slots h1 firstRemoved

def lookupSlot (p : HashPolicy T Key Lookup) (reason : LookupReason) (t : HashTable T)
    (aLookup : Lookup) (aKeyHash : HashNumber) : Option (Nat × List (EntrySlot T)) := do
  let h1 := t.hash1 aKeyHash
  let slot ← t.slots[h1.toNat]?
  if slot.isFree then some (h1.toNat, t.slots)
  else if slotMatches p slot aKeyHash aLookup then some (h1.toNat, t.slots)
  else lookupLoop p reason aLookup aKeyHash (t.hash2 aKeyHash) t.slots.length t.slots h1 none

def findNonLiveLoop (dh : DoubleHash) :
    Nat → List (EntrySlot T) → HashNumber → Option (Nat × List (EntrySlot T))
  | 0, _, _ => none
  | rounds + 1, slots, h1 => do
    let slot ← slots[h1.toNat]?
    let slots := slots.set h1.toNat slot.setCollision
    let h1 := applyDoubleHash h1 dh
    let slot ← slots[h1.toNat]?
    if !slot.isLive then some (h1.toNat, slots) else findNonLiveLoop dh rounds slots h1

def findNonLiveSlot (t : HashTable T) (aKeyHash : HashNumber) :
    Option (Nat × List (EntrySlot T)) := do
  let h1 := t.hash1 aKeyHash
  let slot ← t.slots[h1.toNat]?
  if !slot.isLive then some (h1.toNat, t.slots)
  else findNonLiveLoop (t.hash2 aKeyHash) t.slots.length t.slots h1

def setSlots (t : HashTable T) (slots : List (EntrySlot T)) : HashTable T :=
  { t with mTable := some slots }

def insertAll : List (EntrySlot T) → HashTable T → Option (HashTable T)
  | [], t => some t
  | slot :: rest, t =>
    match slot.isLive, slot.mEntry with
    | true, some e => do
      let hn := slot.getKeyHash
      let (i, slots) ← t.findNonLiveSlot hn
      insertAll rest (t.setSlots (slots.set i (.setLive hn e)))
    | _, _ => insertAll rest t

def changeTableSize (t : HashTable T) (newCapacity : Nat) (mem : List Bool) :
    Option (RebuildStatus × HashTable T) := do
  if newCapacity > sMaxCapacity then some (.RehashFailed, t)
  else if mem.head?.getD false then
    let new ← insertAll t.slots { t with
      mHashShift := kHashNumberBits - CeilingLog2 newCapacity
      mRemovedCount := 0
      mGen := t.mGen + 1
      mTable := some (List.replicate newCapacity .free) }
    some (.Rehashed, new)
  else some (.RehashFailed, t)

def overloaded (t : HashTable T) : Bool :=
  t.mEntryCount + t.mRemovedCount ≥ t.capacity * sMaxAlphaNumerator / sAlphaDenominator

def rehashIfOverloaded (t : HashTable T) (mem : List Bool) :
    Option (RebuildStatus × HashTable T) :=
  if !t.overloaded then some (.NotOverloaded, t)
  else
    let manyRemoved := t.mRemovedCount ≥ t.capacity / 4
    let newCapacity := if manyRemoved then t.rawCapacity else t.rawCapacity * 2
    t.changeTableSize newCapacity mem

def findTarget (dh : DoubleHash) :
    Nat → List (EntrySlot T) → HashNumber → Option Nat
  | 0, _, _ => none
  | rounds + 1, slots, h1 => do
    let tgt ← slots[h1.toNat]?
    if !tgt.hasCollision then some h1.toNat else findTarget dh rounds slots (applyDoubleHash h1 dh)

def rehashLoop (t : HashTable T) :
    Nat → Nat → List (EntrySlot T) → Option (List (EntrySlot T))
  | rounds, i, slots =>
    if t.capacity ≤ i then some slots
    else
      match rounds with
      | 0 => none
      | rounds + 1 => do
        let src ← slots[i]?
        if !src.isLive || src.hasCollision then t.rehashLoop rounds (i + 1) slots
        else
          let keyHash := src.getKeyHash
          let j ← findTarget (t.hash2 keyHash) slots.length slots (t.hash1 keyHash)
          let tgt ← slots[j]?
          t.rehashLoop rounds i ((slots.set i tgt).set j src.setCollision)

def rehashTableInPlace (t : HashTable T) : Option (HashTable T) := do
  let slots ← t.rehashLoop (2 * t.capacity) 0 (t.slots.map EntrySlot.unsetCollision)
  some { t with mRemovedCount := 0, mGen := t.mGen + 1, mTable := t.mTable.map fun _ => slots }

def infallibleRehashIfOverloaded (t : HashTable T) (mem : List Bool) : Option (HashTable T) := do
  match ← t.rehashIfOverloaded mem with
  | (.RehashFailed, t) => t.rehashTableInPlace
  | (_, t) => some t

def removeSlot (t : HashTable T) (i : Nat) : Option (HashTable T) := do
  let slot ← t.slots[i]?
  let t := { t with
    mEntryCount := t.mEntryCount - 1
    mMutationCount := t.mMutationCount + 1 }
  if slot.hasCollision then
    some { t.setSlots (t.slots.set i .removeLive) with mRemovedCount := t.mRemovedCount + 1 }
  else some (t.setSlots (t.slots.set i .clearLive))

def shrinkIfUnderloaded (t : HashTable T) (mem : List Bool) : Option (HashTable T) := do
  let underloaded := t.capacity > sMinCapacity
    && t.mEntryCount ≤ t.capacity * sMinAlphaNumerator / sAlphaDenominator
  if underloaded then
    let (_, t) ← t.changeTableSize (t.capacity / 2) mem
    some t
  else some t

def setLiveSlot (t : HashTable T) (slots : List (EntrySlot T)) (i : Nat) (keyHash : HashNumber)
    (e : T) : HashTable T :=
  { t.setSlots (slots.set i (.setLive keyHash e)) with
    mEntryCount := t.mEntryCount + 1
    mMutationCount := t.mMutationCount + 1 }

def putNewInfallibleInternal (p : HashPolicy T Key Lookup) (t : HashTable T) (aLookup : Lookup)
    (e : T) : Option (HashTable T) := do
  let keyHash := p.prepareHash aLookup
  let (i, slots) ← t.findNonLiveSlot keyHash
  let slot ← slots[i]?
  if slot.isRemoved then
    some { t.setLiveSlot slots i (keyHash ||| sCollisionBit) e with
      mRemovedCount := t.mRemovedCount - 1 }
  else some (t.setLiveSlot slots i keyHash e)

def clear (t : HashTable T) : HashTable T :=
  { t with
    mTable := t.mTable.map fun slots => slots.map fun _ => .free
    mRemovedCount := 0
    mEntryCount := 0
    mMutationCount := t.mMutationCount + 1 }

def compact (t : HashTable T) (mem : List Bool) : Option (HashTable T) :=
  if t.empty then
    some { t with
      mGen := t.mGen + 1
      mHashShift := hashShift 0
      mTable := none
      mRemovedCount := 0 }
  else if bestCapacity t.mEntryCount < t.capacity then do
    let (_, t) ← t.changeTableSize (bestCapacity t.mEntryCount) mem
    some t
  else some t

def reserve (t : HashTable T) (aLen : Nat) (mem : List Bool) : Option (Bool × HashTable T) :=
  if aLen = 0 then some (true, t)
  else if aLen > sMaxInit then some (false, t)
  else if bestCapacity aLen ≤ t.capacity then some (true, t)
  else do
    let (status, t) ← t.changeTableSize (bestCapacity aLen) mem
    some (status ≠ .RehashFailed, t)

def isLiveAt (t : HashTable T) (i : Nat) : Bool := (t.slots[i]?).any EntrySlot.isLive

-- The slot of a `Ptr` that has been found. Every lookup has a hash here.
def lookup (p : HashPolicy T Key Lookup) (t : HashTable T) (aLookup : Lookup) :
    Option (Option Nat) :=
  if t.empty then some none
  else do
    let (i, _) ← lookupSlot p .ForNonAdd t aLookup (p.prepareHash aLookup)
    some (if t.isLiveAt i then some i else none)

def lookupForAdd (p : HashPolicy T Key Lookup) (t : HashTable T) (aLookup : Lookup)
    (ensured : Bool) : Option (AddPtr × HashTable T) :=
  if !ensured then some (⟨none, 0#32, 0, 0⟩, t)
  else
    let keyHash := p.prepareHash aLookup
    match t.mTable with
    | none => some (⟨none, keyHash, t.mGen, t.mMutationCount⟩, t)
    | some _ => do
      let (i, slots) ← lookupSlot p .ForAdd t aLookup keyHash
      some (⟨some i, keyHash, t.mGen, t.mMutationCount⟩, t.setSlots slots)

def add (t : HashTable T) (aPtr : AddPtr) (e : T) (oom : Bool) (mem : List Bool) :
    Option (Bool × HashTable T) :=
  if !isLiveHash aPtr.mKeyHash then some (false, t)
  else
    match aPtr.mSlot with
    | none => do
      match ← t.changeTableSize t.rawCapacity mem with
      | (.RehashFailed, t) => some (false, t)
      | (_, t) =>
        let (i, slots) ← t.findNonLiveSlot aPtr.mKeyHash
        some (true, t.setLiveSlot slots i aPtr.mKeyHash e)
    | some i => do
      let slot ← t.slots[i]?
      if slot.isRemoved then
        if !oom then some (false, t)
        else
          some (true, { t.setLiveSlot t.slots i (aPtr.mKeyHash ||| sCollisionBit) e with
            mRemovedCount := t.mRemovedCount - 1 })
      else
        match ← t.rehashIfOverloaded mem with
        | (.RehashFailed, t) => some (false, t)
        | (.NotOverloaded, t) =>
          if !oom then some (false, t) else some (true, t.setLiveSlot t.slots i aPtr.mKeyHash e)
        | (.Rehashed, t) =>
          let (i, slots) ← t.findNonLiveSlot aPtr.mKeyHash
          some (true, t.setLiveSlot slots i aPtr.mKeyHash e)

def putNew (p : HashPolicy T Key Lookup) (t : HashTable T) (aLookup : Lookup) (e : T)
    (oom ensured : Bool) (mem : List Bool) : Option (Bool × HashTable T) := do
  if !oom then some (false, t)
  else if !ensured then some (false, t)
  else
    match ← t.rehashIfOverloaded mem with
    | (.RehashFailed, t) => some (false, t)
    | (_, t) =>
      let t ← putNewInfallibleInternal p t aLookup e
      some (true, t)

def relookupOrAdd (p : HashPolicy T Key Lookup) (t : HashTable T) (aPtr : AddPtr)
    (aLookup : Lookup) (e : T) (oom : Bool) (mem : List Bool) : Option (Bool × HashTable T) :=
  if !isLiveHash aPtr.mKeyHash then some (false, t)
  else
    match t.mTable with
    | some _ => do
      let (i, slots) ← lookupSlot p .ForAdd t aLookup aPtr.mKeyHash
      let t := t.setSlots slots
      if t.isLiveAt i then some (true, t)
      else t.add { aPtr with mSlot := some i } e oom mem
    | none => t.add { aPtr with mSlot := none } e oom mem

def removePtr (t : HashTable T) (i : Nat) (mem : List Bool) : Option (HashTable T) := do
  let t ← t.removeSlot i
  t.shrinkIfUnderloaded mem

def rekeyWithoutRehash (p : HashPolicy T Key Lookup) (t : HashTable T) (i : Nat)
    (aLookup : Lookup) (aKey : Key) : Option (HashTable T) := do
  let slot ← t.slots[i]?
  let e ← slot.mEntry
  let t ← t.removeSlot i
  putNewInfallibleInternal p t aLookup (p.setKey e aKey)

def rekeyAndMaybeRehash (p : HashPolicy T Key Lookup) (t : HashTable T) (i : Nat)
    (aLookup : Lookup) (aKey : Key) (mem : List Bool) : Option (HashTable T) := do
  let t ← rekeyWithoutRehash p t i aLookup aKey
  t.infallibleRehashIfOverloaded mem

def remove (p : HashPolicy T Key Lookup) (t : HashTable T) (aLookup : Lookup) (mem : List Bool) :
    Option (HashTable T) := do
  match ← lookup p t aLookup with
  | some i => t.removePtr i mem
  | none => some t

def rekeyAs (p : HashPolicy T Key Lookup) (t : HashTable T) (aOldLookup aNewLookup : Lookup)
    (aNewKey : Key) (mem : List Bool) : Option (Bool × HashTable T) := do
  match ← lookup p t aOldLookup with
  | some i =>
    let t ← rekeyAndMaybeRehash p t i aNewLookup aNewKey mem
    some (true, t)
  | none => some (false, t)

end HashTable

-- The end of an enumeration is the capacity at its start. `mValidEntry` is whether the current entry
-- is still where it has been.
structure ModIterator where
  mCur : Nat
  mEnd : Nat
  mRekeyed : Bool
  mRemoved : Bool
  mValidEntry : Bool
deriving DecidableEq, Repr

namespace ModIterator

variable {T Key Lookup : Type}

def skip (t : HashTable T) (mEnd : Nat) : Nat → Nat → Nat
  | 0, i => i
  | rounds + 1, i => if i < mEnd && !t.isLiveAt i then skip t mEnd rounds (i + 1) else i

def init (t : HashTable T) : ModIterator :=
  ⟨skip t t.capacity t.capacity 0, t.capacity, false, false, true⟩

def done (it : ModIterator) : Bool := it.mCur = it.mEnd

def get (t : HashTable T) (it : ModIterator) : Option T := (t.slots[it.mCur]?).bind (·.mEntry)

def next (t : HashTable T) (it : ModIterator) : ModIterator :=
  { it with mCur := skip t it.mEnd (it.mEnd - (it.mCur + 1)) (it.mCur + 1), mValidEntry := true }

def remove (t : HashTable T) (it : ModIterator) : Option (ModIterator × HashTable T) := do
  let t ← t.removeSlot it.mCur
  some ({ it with mRemoved := true, mValidEntry := false }, t)

def rekey (p : HashPolicy T Key Lookup) (t : HashTable T) (it : ModIterator) (l : Lookup) (k : Key) :
    Option (ModIterator × HashTable T) := do
  let t ← HashTable.rekeyWithoutRehash p t it.mCur l k
  some ({ it with mRekeyed := true, mValidEntry := false }, t)

def close (t : HashTable T) (it : ModIterator) (mem mem' : List Bool) : Option (HashTable T) := do
  let t ←
    if it.mRekeyed then HashTable.infallibleRehashIfOverloaded { t with mGen := t.mGen + 1 } mem else some t
  if it.mRemoved then t.compact mem' else some t

end ModIterator

end SpiderMonkey
