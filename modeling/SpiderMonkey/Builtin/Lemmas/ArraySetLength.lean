import SpiderMonkey.Builtin.Lemmas.ArrayDeletion

/-!
This module contains what the steps do to the header and to the elements with which the length of an array is set.
-/

namespace SpiderMonkey.Elements

open NativeObject

variable {α Object : Type} {obj : NativeObject α} {before body : List (HeapSlot α)} {h : ObjectElements}
  {xs : List (Value α)} {properties : List (Nat × Property Object)} {env : Environment}

namespace ObjectElements

theorem or_nonwritable_and (flags mask : BitVec 32) (hmask : NONWRITABLE_ARRAY_LENGTH &&& mask = 0)
    : (flags ||| NONWRITABLE_ARRAY_LENGTH) &&& mask = flags &&& mask := by
  rw [BitVec.and_comm, BitVec.and_or_distrib_left, BitVec.and_comm mask NONWRITABLE_ARRAY_LENGTH, hmask,
    BitVec.and_comm]
  exact BitVec.or_zero

theorem or_nonwritable_shiftRight (flags : BitVec 32)
    : (flags ||| NONWRITABLE_ARRAY_LENGTH) >>> NumShiftedElementsShift = flags >>> NumShiftedElementsShift := by
  rw [BitVec.ushiftRight_or_distrib, show NONWRITABLE_ARRAY_LENGTH >>> NumShiftedElementsShift = 0 from rfl]
  exact BitVec.or_zero

theorem or_nonwritable_and_self (flags : BitVec 32)
    : (flags ||| NONWRITABLE_ARRAY_LENGTH) &&& NONWRITABLE_ARRAY_LENGTH ≠ 0 := by
  intro hzero
  have hbit := congrArg (fun b : BitVec 32 => b.getLsbD 1) hzero
  simp [NONWRITABLE_ARRAY_LENGTH] at hbit

end ObjectElements

structure Kept (obj : NativeObject α) (h : ObjectElements) (obj' : NativeObject α) (h' : ObjectElements) : Prop where
  storage : obj' = obj ∨ obj' = obj.dynamic
  length : h'.length = h.length
  flags : h'.flags &&& FlagsMask = h.flags &&& FlagsMask

section

variable {obj' obj'' : NativeObject α} {h' h'' : ObjectElements}

theorem Kept.refl : Kept obj h obj h := ⟨.inl rfl, rfl, rfl⟩

theorem Kept.trans (hk : Kept obj h obj' h') (hk' : Kept obj' h' obj'' h'') : Kept obj h obj'' h'' where
  storage := by
    rcases hk.storage with rfl | rfl
    . exact hk'.storage
    . exact .inr (hk'.storage.elim id id)
  length := hk'.length.trans hk.length
  flags := hk'.flags.trans hk.flags

theorem Kept.isExtensible (hk : Kept obj h obj' h') : obj'.isExtensible = obj.isExtensible := by
  rcases hk.storage with rfl | rfl <;> rfl

theorem Kept.isCopyOnWrite (hk : Kept obj h obj' h') : h'.isCopyOnWrite = h.isCopyOnWrite :=
  ObjectElements.isCopyOnWrite_of_flags hk.flags

theorem Kept.nonwritable (hk : Kept obj h obj' h') : h'.hasNonwritableArrayLength = h.hasNonwritableArrayLength :=
  ObjectElements.hasNonwritableArrayLength_of_flags hk.flags

theorem Kept.sealed (hk : Kept obj h obj' h') : h'.flags &&& SEALED = h.flags &&& SEALED :=
  ObjectElements.and_eq_of_flags hk.flags _ (by decide)

theorem Kept.frozen (hk : Kept obj h obj' h') : h'.flags &&& FROZEN = h.flags &&& FROZEN :=
  ObjectElements.and_eq_of_flags hk.flags _ (by decide)

end

section

variable {before' body' : List (HeapSlot α)} {obj' : NativeObject α} {h' : ObjectElements}

theorem NativeObject.Preserves.kept (hp : Preserves obj h body obj' before' h' body') : Kept obj h obj' h' :=
  ⟨hp.storage, hp.length, hp.flags⟩

theorem Filled.of_preserves (hf : Filled obj before h body xs) (hp : Preserves obj h body obj' before' h' body')
    : Filled obj' before' h' body' xs where
  good := hp.good
  values := hp.elements.trans hf.values
  storage := by
    rcases hp.storage with rfl | rfl
    . exact hf.storage
    . exact storage_dynamic

theorem Filled.take (hf : Filled obj before h body xs) (n : Nat)
    : Filled obj before { h with initializedLength := min h.initializedLength n } body (xs.take n) where
  good := hf.good.of_initializedLength (Nat.le_trans (Nat.min_le_left _ _) hf.good.initializedLength_le)
  values := by
    dsimp only
    rw [Nat.min_comm, ← List.take_take, hf.values, List.map_take]
  storage := hf.storage

theorem Filled.withLength (hf : Filled obj before h body xs) (n : Nat)
    : Filled obj before { h with length := n } body xs where
  good := ⟨hf.good.numShifted_eq, hf.good.initializedLength_le, hf.good.capacity_le, hf.good.allocated_le,
    hf.good.of_shifted, hf.good.of_isExtensible, hf.good.of_emptyElements⟩
  values := hf.values
  storage := hf.storage

theorem Filled.withNonwritable (hf : Filled obj [] h body xs)
    : Filled obj [] { h with flags := h.flags ||| NONWRITABLE_ARRAY_LENGTH } body xs where
  good := by
    have hg := hf.good
    constructor
    . unfold ObjectElements.numShiftedElements
      rw [ObjectElements.or_nonwritable_shiftRight]
      exact hg.numShifted_eq
    . exact hg.initializedLength_le
    . exact hg.capacity_le
    . exact hg.allocated_le
    . intro hne
      exact absurd rfl hne
    . intro hextensible
      obtain ⟨hsealed, hfrozen⟩ := hg.of_isExtensible hextensible
      exact ⟨(ObjectElements.or_nonwritable_and _ _ (by decide)).trans hsealed,
        (ObjectElements.or_nonwritable_and _ _ (by decide)).trans hfrozen⟩
    . intro hempty
      exact absurd hempty hf.storage
  values := hf.values
  storage := hf.storage

end

section

variable (hf : Filled obj before h body xs) (hcow : h.isCopyOnWrite = false)
include hf hcow

theorem shrinkCapacity_filled (alloc : Allocator) (barrier : Bool)
    : ∃ obj' h' body', (obj.place before h body).shrinkCapacityToInitializedLength alloc barrier
        = some (obj'.place [] h' body')
      ∧ Filled obj' [] h' body' xs ∧ Kept obj h obj' h' ∧ h'.capacity = h'.initializedLength
      ∧ h'.initializedLength = h.initializedLength := by
  obtain ⟨obj', h', body', hrun, hpreserves, hcapacity⟩ := shrinkCapacityToInitializedLength_place alloc hf.good barrier hcow
  have hlength := hpreserves.initializedLength
  exact ⟨obj', h', body', hrun, hf.of_preserves hpreserves, hpreserves.kept, hcapacity.trans hlength.symm, hlength⟩

theorem setDenseInitializedLength_filled (hfrozen : h.flags &&& FROZEN = 0) (alloc : Allocator) (barrier : Bool)
    (hn : n < h.initializedLength)
    : ∃ obj' before' h' body', (obj.place before h body).setDenseInitializedLengthMaybeNonExtensible alloc barrier n
        = some (obj'.place before' h' body')
      ∧ Filled obj' before' h' body' (xs.take n) ∧ Kept obj h obj' h' ∧ h'.initializedLength = n
      ∧ if obj.isExtensible then h'.capacity = h.capacity else h'.capacity = h'.initializedLength := by
  have hle := hf.good.initializedLength_le
  have hmin : min h.initializedLength n = n := Nat.min_eq_right (Nat.le_of_lt hn)
  have hf₁ := hf.take n
  rw [hmin] at hf₁
  have hinternal : (obj.place before h body).setDenseInitializedLengthInternal n
      = some (obj.place before { h with initializedLength := n } body) := by
    unfold NativeObject.setDenseInitializedLengthInternal
    have hthawed : ¬h.isFrozen = true := fun hfrozen' => of_decide_eq_true hfrozen' hfrozen
    rw [getElementsHeader_place, some_bind, MOZ_ASSERT_of (Nat.le_trans (Nat.le_of_lt hn) hle), some_bind,
      MOZ_ASSERT_of (by simp [hcow]), some_bind, MOZ_ASSERT_of hthawed]
    exact setElementsHeader_place hf.storage
  unfold NativeObject.setDenseInitializedLengthMaybeNonExtensible
  rw [hinternal, some_bind,
    show (obj.place before { h with initializedLength := n } body).isExtensible = obj.isExtensible from rfl]
  cases hextensible : obj.isExtensible with
  | true => exact ⟨obj, before, _, body, rfl, hf₁, ⟨.inl rfl, rfl, rfl⟩, rfl, rfl⟩
  | false =>
    obtain ⟨obj', h', body', hrun, hf', hkept, hcapacity, hlength⟩ := shrinkCapacity_filled hf₁ hcow alloc barrier
    exact ⟨obj', [], h', body', hrun, hf', ⟨hkept.storage, hkept.length, hkept.flags⟩, hlength, hcapacity⟩

variable (properties env) in
theorem truncateDense_place (hfrozen : h.flags &&& FROZEN = 0)
    (hcapacity : obj.isExtensible = false → h.capacity = h.initializedLength) (lengthReadonly : Bool) (newLen : Nat)
    : ∃ obj' before' h' body', (ArrayObject.mk (obj.place before h body) properties lengthReadonly).truncateDense env newLen
        = some (.finished, ⟨obj'.place before' h' body', properties, lengthReadonly⟩)
      ∧ Filled obj' before' h' body' (xs.take newLen) ∧ Kept obj h obj' h' := by
  have hle := hf.good.initializedLength_le
  have hcut : ∃ obj₁ before₁ h₁ body₁, (if h.initializedLength > newLen then
        (obj.place before h body).setDenseInitializedLengthMaybeNonExtensible env.shrinkAlloc env.barrier newLen
      else some (obj.place before h body)) = some (obj₁.place before₁ h₁ body₁)
      ∧ Filled obj₁ before₁ h₁ body₁ (xs.take newLen) ∧ Kept obj h obj₁ h₁ ∧ h₁.initializedLength ≤ newLen
      ∧ if obj.isExtensible then h₁.capacity = h.capacity else h₁.capacity = h₁.initializedLength := by
    split
    next hlt =>
      obtain ⟨obj₁, before₁, h₁, body₁, hrun, hf₁, hkept, hlength, hcap⟩ :=
        setDenseInitializedLength_filled hf hcow hfrozen env.shrinkAlloc env.barrier hlt
      exact ⟨obj₁, before₁, h₁, body₁, hrun, hf₁, hkept, Nat.le_of_eq hlength, hcap⟩
    next hnot =>
      have htake : xs.take newLen = xs := List.take_of_length_le (by rw [← hf.length]; omega)
      refine ⟨obj, before, h, body, rfl, htake.symm ▸ hf, .refl, Nat.not_lt.mp hnot, ?_⟩
      split
      next => rfl
      next hextensible => exact hcapacity (Bool.eq_false_of_not_eq_true hextensible)
  obtain ⟨obj₁, before₁, h₁, body₁, hrun, hf₁, hkept, hlength, hcap⟩ := hcut
  have hcow₁ := hkept.isCopyOnWrite.trans hcow
  have hextensible₁ : (obj₁.place before₁ h₁ body₁).isExtensible = obj.isExtensible := hkept.isExtensible
  unfold ArrayObject.truncateDense
  rw [maybeCopyElementsForWrite_of_own env.copyAlloc hcow, some_bind]
  dsimp only
  rw [if_neg (not_not.mpr rfl), getElementsHeader_place, some_bind, MOZ_ASSERT_of hle, some_bind, hrun, some_bind]
  split
  next hlt =>
    rw [hextensible₁]
    cases hextensible : obj.isExtensible with
    | true =>
      rw [hextensible, if_pos rfl] at hcap
      obtain ⟨obj', before', h', body', hrun', hpreserves, _⟩ := shrinkElements_place env.shrinkAlloc hf₁.good env.barrier
        hcow₁ hlength (by omega)
      rw [if_pos rfl, hrun', some_bind]
      exact ⟨obj', before', h', body', rfl, hf₁.of_preserves hpreserves, hkept.trans hpreserves.kept⟩
    | false =>
      rw [hextensible, if_neg Bool.false_ne_true] at hcap
      rw [if_neg Bool.false_ne_true, getElementsHeader_place, some_bind, MOZ_ASSERT_of hcap.symm]
      exact ⟨obj₁, before₁, h₁, body₁, rfl, hf₁, hkept⟩
  next => exact ⟨obj₁, before₁, h₁, body₁, rfl, hf₁, hkept⟩

variable (properties env) in
theorem setNonWritableLength_place (lengthReadonly : Bool)
    : ∃ obj' h' body', (ArrayObject.mk (obj.place before h body) properties lengthReadonly).setNonWritableLength env
        = some ⟨obj'.place [] h' body', properties, lengthReadonly⟩
      ∧ Filled obj' [] h' body' xs ∧ h'.length = h.length ∧ h'.initializedLength = h.initializedLength
      ∧ h'.flags &&& SEALED = h.flags &&& SEALED ∧ h'.flags &&& FROZEN = h.flags &&& FROZEN
      ∧ h'.hasNonwritableArrayLength = true ∧ h'.capacity = h'.initializedLength := by
  obtain ⟨obj', h', body', hrun, hf', hkept, hcapacity, hlength⟩ :=
    shrinkCapacity_filled hf hcow env.shrinkAlloc env.barrier
  have hcow' := hkept.isCopyOnWrite.trans hcow
  have hshifted : h'.numShiftedElements = 0 := hf'.good.numShifted_eq
  have hset : h'.setNonwritableArrayLength = some { h' with flags := h'.flags ||| NONWRITABLE_ARRAY_LENGTH } := by
    unfold ObjectElements.setNonwritableArrayLength
    rw [MOZ_ASSERT_of hcapacity, some_bind, MOZ_ASSERT_of hshifted, some_bind, MOZ_ASSERT_of (by simp [hcow'])]
    rfl
  refine ⟨obj', _, body', ?_, hf'.withNonwritable, hkept.length, hlength,
    (ObjectElements.or_nonwritable_and _ _ (by decide)).trans hkept.sealed,
    (ObjectElements.or_nonwritable_and _ _ (by decide)).trans hkept.frozen,
    decide_eq_true (ObjectElements.or_nonwritable_and_self _), hcapacity⟩
  unfold ArrayObject.setNonWritableLength
  rw [hrun, some_bind, getElementsHeader_place, some_bind, hset, some_bind, setElementsHeader_place hf'.storage]
  rfl

variable (properties env) in
theorem synchronizeElements_place (hwritable : h.hasNonwritableArrayLength = false) (lengthReadonly readonly : Bool)
    (newLen : Nat)
    : ∃ obj' before' h' body', (ArrayObject.mk (obj.place before h body) properties lengthReadonly).synchronizeElements env
          readonly newLen = some ⟨obj'.place before' h' body', properties, lengthReadonly⟩
      ∧ Filled obj' before' h' body' (xs.take newLen) ∧ h'.length = h.length
      ∧ h'.flags &&& SEALED = h.flags &&& SEALED ∧ h'.flags &&& FROZEN = h.flags &&& FROZEN
      ∧ h'.hasNonwritableArrayLength = readonly ∧ (readonly = true → h'.capacity = h'.initializedLength) := by
  have hf₁ := hf.take newLen
  obtain ⟨h₁, hh₁⟩ : ∃ h₁ : ObjectElements, h₁ = { h with initializedLength := min h.initializedLength newLen } :=
    ⟨_, rfl⟩
  rw [← hh₁] at hf₁
  have hset : (obj.place before h body).setElementsHeader h₁ = some (obj.place before h₁ body) :=
    setElementsHeader_place hf.storage
  have hcow₁ : h₁.isCopyOnWrite = false := by
    rw [hh₁]
    exact hcow
  have hkept₁ : Kept obj h obj h₁ := by
    rw [hh₁]
    exact ⟨.inl rfl, rfl, rfl⟩
  have hshrunk : ∃ obj₂ before₂ h₂ body₂, (if ¬(obj.place before h₁ body).isExtensible = true then
        (obj.place before h₁ body).shrinkCapacityToInitializedLength env.shrinkAlloc env.barrier
      else some (obj.place before h₁ body)) = some (obj₂.place before₂ h₂ body₂)
      ∧ Filled obj₂ before₂ h₂ body₂ (xs.take newLen) ∧ Kept obj h₁ obj₂ h₂ := by
    split
    next =>
      obtain ⟨obj₂, h₂, body₂, hrun, hf₂, hkept, _⟩ := shrinkCapacity_filled hf₁ hcow₁ env.shrinkAlloc env.barrier
      exact ⟨obj₂, [], h₂, body₂, hrun, hf₂, hkept⟩
    next => exact ⟨obj, before, h₁, body, rfl, hf₁, .refl⟩
  obtain ⟨obj₂, before₂, h₂, body₂, hrun, hf₂, hkept₂⟩ := hshrunk
  have hkept := hkept₁.trans hkept₂
  unfold ArrayObject.synchronizeElements
  rw [getElementsHeader_place, some_bind, ← hh₁, hset, some_bind, hrun, some_bind]
  cases readonly with
  | false =>
    exact ⟨obj₂, before₂, h₂, body₂, rfl, hf₂, hkept.length, hkept.sealed, hkept.frozen,
      hkept.nonwritable.trans hwritable, (nomatch ·)⟩
  | true =>
    obtain ⟨obj', h', body', hrun', hf', hlength, _, hsealed, hfrozen, hnonwritable, hcapacity⟩ :=
      setNonWritableLength_place properties env hf₂ (hkept.isCopyOnWrite.trans hcow) lengthReadonly
    exact ⟨obj', [], h', body', hrun', hf', hlength.trans hkept.length, hsealed.trans hkept.sealed,
      hfrozen.trans hkept.frozen, hnonwritable, fun _ => hcapacity⟩

end

section

variable (hf : Filled obj before h body xs) (hcow : h.isCopyOnWrite = false) (hfrozen : h.flags &&& FROZEN = 0)
include hf hcow hfrozen

variable (env) in
theorem deleteElements_place (ha : Apart xs properties)
    (hcapacity : obj.isExtensible = false → h.capacity = h.initializedLength)
    (hindexed : obj.isIndexed = false → properties = []) (lengthReadonly : Bool) (newLen : Nat)
    (hle : h.initializedLength ≤ oldLen) (huint : oldLen < 2 ^ 32)
    (hlt : ∀ i p, ownProperty xs properties i = some p → i < oldLen)
    : ∃ result obj' before' h' body' xs' properties',
        (ArrayObject.mk (obj.place before h body) properties lengthReadonly).deleteElements env newLen oldLen
          = some (result, ⟨obj'.place before' h' body', properties', lengthReadonly⟩)
      ∧ Filled obj' before' h' body' xs' ∧ Kept obj h obj' h'
      ∧ (newLen < oldLen ∧ (obj.isIndexed = true ∨ env.MaybeInIteration = true ∨ h.isSealed = true) →
          h' = h ∧ Ends env h (ownProperty xs properties) (ownProperty xs' properties') newLen oldLen result)
      ∧ (¬(newLen < oldLen ∧ (obj.isIndexed = true ∨ env.MaybeInIteration = true ∨ h.isSealed = true)) →
          result = .finished ∧ TruncatesTo h (ownProperty xs properties) newLen newLen
            ∧ ownProperty xs' properties' = below newLen (ownProperty xs properties)
            ∧ h'.initializedLength ≤ newLen) := by
  unfold ArrayObject.deleteElements
  split
  next hge =>
    refine ⟨.finished, obj, before, h, body, xs, properties, rfl, hf, .refl,
      fun hand => absurd hand.1 (Nat.not_lt.mpr hge), fun _ => ⟨rfl,
      ⟨Nat.le_refl _, fun hlt => absurd hlt (Nat.lt_irrefl _), fun i p hi hp => ?_⟩, ?_, Nat.le_trans hle hge⟩⟩
    . have := hlt i p hp
      omega
    funext i
    unfold below
    split
    next => rfl
    next hi =>
      rcases hp : ownProperty xs properties i with _ | p
      . rfl
      . have := hlt i p hp
        omega
  next hnot =>
    have hnot := Nat.not_le.mp hnot
    rw [getElementsHeader_place, some_bind]
    split
    next hdense =>
      obtain ⟨hindex, hiteration, hsealed⟩ := hdense
      have hnone := hindexed (Bool.eq_false_of_not_eq_true hindex)
      subst hnone
      obtain ⟨obj', before', h', body', hrun, hf', hkept⟩ :=
        truncateDense_place [] env hf hcow hfrozen hcapacity lengthReadonly newLen
      refine ⟨.finished, obj', before', h', body', xs.take newLen, [], hrun, hf', hkept,
        fun hand => absurd hand.2 (not_or.mpr ⟨hindex, not_or.mpr ⟨hiteration, hsealed⟩⟩), fun _ => ⟨rfl,
        ⟨Nat.le_refl _, fun hlt => absurd hlt (Nat.lt_irrefl _), fun i p _ hp => ?_⟩, ?_, ?_⟩⟩
      . unfold ownProperty at hp
        split at hp
        next =>
          cases hp
          exact Bool.or_eq_false_iff.mpr ⟨Bool.eq_false_of_not_eq_true hsealed, decide_eq_false (not_not.mpr hfrozen)⟩
        next => cases hp
      . funext i
        exact ownProperty_take newLen i
      . rw [hf'.length, List.length_take]
        exact Nat.min_le_left _ _
    next hslow =>
      have hslow : obj.isIndexed = true ∨ env.MaybeInIteration = true ∨ h.isSealed = true := by
        by_contra hnone
        rw [not_or, not_or] at hnone
        exact hslow hnone
      split
      next hgap =>
        obtain ⟨result, body', xs', properties', hrun, hf', hends⟩ :=
          deleteDown_ends env hf ha hcow lengthReadonly hlt hgap
        exact ⟨result, obj, before, h, body', xs', properties', hrun, hf', .refl, fun _ => ⟨rfl, hends⟩,
          fun hnone => absurd ⟨hnot, hslow⟩ hnone⟩
      next hgap =>
        obtain ⟨result, body', xs', properties', hrun, hf', hends⟩ :=
          deleteIndexes_ends env hf ha hcow lengthReadonly hlt (Nat.not_lt.mp hgap) huint
        exact ⟨result, obj, before, h, body', xs', properties', hrun, hf', .refl, fun _ => ⟨rfl, hends⟩,
          fun hnone => absurd ⟨hnot, hslow⟩ hnone⟩

variable (properties env) in
theorem defineLength_place (hwritable : h.hasNonwritableArrayLength = false) (lengthReadonly readonly : Bool) (n : Nat)
    (succeeded : Bool)
    : ∃ obj' before' h' body' xs' lengthReadonly',
        (ArrayObject.mk (obj.place before h body) properties lengthReadonly).defineLength env readonly n succeeded
          = some (if readonly = true ∧ env.changeProperty = false then .exception
            else if succeeded = true then .succeed else .fail .JSMSG_CANT_TRUNCATE_ARRAY,
            ⟨obj'.place before' h' body', properties, lengthReadonly'⟩)
      ∧ Filled obj' before' h' body' xs' ∧ h'.length = n
      ∧ (h'.flags &&& SEALED = h.flags &&& SEALED ∧ h'.flags &&& FROZEN = h.flags &&& FROZEN)
      ∧ (readonly = true ∧ env.changeProperty = false →
          h'.initializedLength = h.initializedLength ∧ h'.hasNonwritableArrayLength = false)
      ∧ (¬(readonly = true ∧ env.changeProperty = false) →
          h'.hasNonwritableArrayLength = readonly ∧ lengthReadonly' = (readonly || lengthReadonly)
            ∧ (readonly = true → h'.capacity = h'.initializedLength) ∧ xs' = xs.take n) := by
  have hf₁ := hf.withLength n
  have hset : (ArrayObject.mk (obj.place before h body) properties lengthReadonly).setLength n
      = some ⟨obj.place before { h with length := n } body, properties, lengthReadonly⟩ := by
    have hthawed : n ≠ h.length → ¬h.isFrozen = true := fun _ hfrozen' => of_decide_eq_true hfrozen' hfrozen
    unfold ArrayObject.setLength
    rw [getElementsHeader_place, some_bind, MOZ_ASSERT_of (by simp [hwritable]),
      some_bind, MOZ_ASSERT_of hthawed, some_bind, setElementsHeader_place hf.storage]
    rfl
  unfold ArrayObject.defineLength
  rw [hset, some_bind]
  by_cases hfails : readonly = true ∧ env.changeProperty = false
  . have hchange : readonly = true ∧ ¬env.changeProperty = true := ⟨hfails.1, by simp [hfails.2]⟩
    rw [if_pos hchange, if_pos hfails]
    exact ⟨obj, before, _, body, xs, lengthReadonly, rfl, hf₁, rfl, ⟨rfl, rfl⟩, fun _ => ⟨rfl, hwritable⟩,
      fun hnot => absurd hfails hnot⟩
  have hreadonly : (if readonly = true then
        { ArrayObject.mk (obj.place before { h with length := n } body) properties lengthReadonly with
          lengthReadonly := true }
      else ArrayObject.mk (obj.place before { h with length := n } body) properties lengthReadonly)
      = ⟨obj.place before { h with length := n } body, properties, readonly || lengthReadonly⟩ := by
    cases readonly <;> rfl
  obtain ⟨obj', before', h', body', hrun, hf', hlength, hsealed, hfrozen', hnonwritable, hcapacity⟩ :=
    synchronizeElements_place properties env hf₁ hcow hwritable (readonly || lengthReadonly) readonly n
  have hchange : ¬(readonly = true ∧ ¬env.changeProperty = true) := fun hand =>
    hfails ⟨hand.1, Bool.eq_false_of_not_eq_true hand.2⟩
  rw [if_neg hchange, if_neg hfails, hreadonly]
  dsimp only
  rw [hrun, some_bind]
  refine ⟨obj', before', h', body', xs.take n, readonly || lengthReadonly, ?_, hf', hlength, ⟨hsealed, hfrozen'⟩,
    fun hand => absurd hand hfails, fun _ => ⟨hnonwritable, rfl, hcapacity, rfl⟩⟩
  cases succeeded <;> rfl

end

end SpiderMonkey.Elements
