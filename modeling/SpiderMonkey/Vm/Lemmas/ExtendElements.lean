import SpiderMonkey.Vm.Lemmas.DenseElements

/-!
This module contains what it does to the elements that they are extended with holes.
-/

namespace SpiderMonkey.Elements
namespace NativeObject

open Overwrite

variable {α : Type} {obj : NativeObject α} {before body : List (HeapSlot α)} {h : ObjectElements}

def holes (n : Nat) : List (HeapSlot α) := List.replicate n (.value .elementsHole)

theorem length_holes (n : Nat) : (holes n : List (HeapSlot α)).length = n := List.length_replicate

theorem initHolesFrom_place (hstorage : obj.storage ≠ .emptyElements) {initlen count : Nat}
    (hle : initlen + count ≤ body.length)
    : initHolesFrom initlen count (obj.place before h body)
      = some (obj.place before h (overwrite body initlen (holes count))) := by
  induction count with
  | zero =>
    rw [show holes 0 = ([] : List (HeapSlot α)) from rfl, overwrite_nil]
    rfl
  | succ count ih =>
    have hlength := length_overwrite (show initlen + (holes count : List (HeapSlot α)).length ≤ body.length by
      rw [length_holes]; omega)
    unfold initHolesFrom
    rw [ih (by omega), some_bind, Nat.add_assoc, writeSlots_place hstorage]
    . exact congrArg (fun body => some (obj.place before h body)) (overwrite_replicate (by omega))
    . rw [List.length_singleton]
      omega

theorem Good.ensureDenseInitializedLength (hg : obj.Good before h body) (hextensible : obj.isExtensible = true)
    (hcow : h.isCopyOnWrite = false) {index extra : Nat} (hle : index + extra ≤ h.capacity)
    : ∃ h' body', (obj.place before h body).ensureDenseInitializedLengthNoPackedCheck index extra
        = some (obj.place before h' body')
      ∧ obj.Good before h' body'
      ∧ body'.take h'.initializedLength
        = body.take h.initializedLength ++ holes (index + extra - h.initializedLength) := by
  have hcapacity := hg.capacity_le
  unfold ensureDenseInitializedLengthNoPackedCheck
  rw [getElementsHeader_place, some_bind, MOZ_ASSERT_of (by simp [hcow]), some_bind, MOZ_ASSERT_of hle, some_bind]
  dsimp only
  split
  next hlt =>
    have hstorage : obj.storage ≠ .emptyElements := by
      intro hempty
      have hzero := (hg.of_emptyElements hempty).2
      omega
    have hlength : (holes (index + extra - h.initializedLength) : List (HeapSlot α)).length
        = index + extra - h.initializedLength := length_holes _
    have hrange : h.initializedLength + (holes (index + extra - h.initializedLength) : List (HeapSlot α)).length
        = index + extra := by omega
    have htake := take_overwrite (show h.initializedLength
      + (holes (index + extra - h.initializedLength) : List (HeapSlot α)).length ≤ body.length by omega)
    rw [hrange] at htake
    rw [MOZ_ASSERT_isExtensible hextensible, some_bind,
      initHolesFrom_place hstorage (by omega), some_bind, setElementsHeader_place hstorage]
    exact ⟨_, _, rfl, (hg.of_initializedLength hle).of_length (length_overwrite (by omega)), htake⟩
  next hnot =>
    refine ⟨h, body, rfl, hg, ?_⟩
    rw [show index + extra - h.initializedLength = 0 by omega]
    exact (List.append_nil _).symm

def Extends (body : List (HeapSlot α)) (h : ObjectElements) (index extra : Nat)
    (run : Option (DenseElementResult × NativeObject α)) : Prop :=
  ∃ result, ∃ obj' : NativeObject α, ∃ before' h' body',
    run = some (result, obj'.place before' h' body') ∧ obj'.Good before' h' body' ∧ obj'.isExtensible = true
    ∧ body'.take h'.initializedLength = body.take h.initializedLength
      ++ holes (if result = .Success then index + extra - h.initializedLength else 0)

theorem Extends.fails {obj' : NativeObject α} {index extra : Nat}
    {result : DenseElementResult} (hg : obj'.Good before' h' body') (hextensible : obj'.isExtensible = true)
    (helements : body'.take h'.initializedLength = body.take h.initializedLength) (hresult : result ≠ .Success)
    : Extends body h index extra (some (result, obj'.place before' h' body')) := by
  refine ⟨result, obj', before', h', body', rfl, hg, hextensible, ?_⟩
  rw [if_neg hresult, helements]
  exact (List.append_nil _).symm

theorem slot_place (i : Nat) : (obj.place before h body).slots[(obj.place before h body).elements_ + i]? = body[i]? := by
  have hindex : (obj.place before h body).elements_ + i = (before ++ h.slots).length + i := by
    rw [List.length_append, length_slots]
    rfl
  have hslots : (obj.place before h body).slots = (before ++ h.slots) ++ body := by
    rw [List.append_assoc]
    rfl
  rw [hslots, hindex, List.getElem?_append_right (Nat.le_add_right _ _), Nat.add_sub_cancel_left]

section Dense

variable {xs : List (Value α)} (hxs : body.take h.initializedLength = xs.map .value)
include hxs

theorem getDenseElement_place {i : Nat} (hi : i < h.initializedLength)
    : (obj.place before h body).getDenseElement i = xs[i]? := by
  have hbody : body[i]? = (xs.map .value)[i]? := by
    rw [← hxs, List.getElem?_take, if_pos hi]
  unfold getDenseElement
  rw [slot_place, hbody, List.getElem?_map]
  cases xs[i]? <;> rfl

theorem initializedLength_eq (hle : h.initializedLength ≤ body.length) : h.initializedLength = xs.length := by
  have hlength := congrArg List.length hxs
  rw [List.length_take, List.length_map] at hlength
  omega

theorem countDense_place (hle : h.initializedLength ≤ body.length)
    : ∀ (len i minimalDenseCount : Nat), i + len = h.initializedLength →
      ∃ b, (obj.place before h body).countDense len i minimalDenseCount = some b := by
  have hlength := initializedLength_eq hxs hle
  intro len
  induction len with
  | zero =>
    intro i minimalDenseCount _
    exact ⟨false, rfl⟩
  | succ len ih =>
    intro i minimalDenseCount hi
    have hget : (obj.place before h body).getDenseElement i = _ := getDenseElement_place hxs (by omega)
    have hsome : xs[i]? = some _ := List.getElem?_eq_getElem (by omega)
    unfold countDense
    rw [hget, hsome, some_bind]
    split
    next => exact ih _ _ (by omega)
    next =>
      split
      next => exact ⟨true, rfl⟩
      next => exact ih _ _ (by omega)

theorem willBeSparseElements_place (hg : obj.Good before h body) (extra : Nat)
    (hmin : requiredCapacity > MIN_SPARSE_INDEX) (hreq : h.capacity < requiredCapacity)
    : ∃ sparse, (obj.place before h body).willBeSparseElements requiredCapacity extra = some sparse
      ∧ (sparse = false → requiredCapacity ≤ MAX_DENSE_ELEMENTS_COUNT) := by
  have hle := hg.initializedLength_le
  have hcapacity := hg.capacity_le
  unfold willBeSparseElements
  rw [MOZ_ASSERT_of hmin, some_bind, getElementsHeader_place, some_bind]
  dsimp only
  rw [MOZ_ASSERT_of (Nat.le_of_lt hreq), some_bind]
  split
  next => exact ⟨true, rfl, (nomatch ·)⟩
  next hmax =>
    have hmax := Nat.not_lt.mp hmax
    split
    next => exact ⟨false, rfl, fun _ => hmax⟩
    next =>
      split
      next => exact ⟨true, rfl, (nomatch ·)⟩
      next =>
        have hcount : ∃ b, (obj.place before h body).countDense h.initializedLength 0
            (requiredCapacity / SPARSE_DENSITY_RATIO - extra) = some b :=
          countDense_place hxs (Nat.le_trans hle hcapacity) _ _ _ (Nat.zero_add _)
        obtain ⟨b, hcount⟩ := hcount
        rw [hcount]
        exact ⟨!b, rfl, fun _ => hmax⟩

variable (hg : obj.Good before h body) (hextensible : obj.isExtensible = true) (hcow : h.isCopyOnWrite = false)
  (alloc : Allocator) (barrier : Bool)
include hg hextensible hcow

theorem extendDenseElements_place (extra : Nat) (hreq : h.capacity < requiredCapacity)
    (huint : requiredCapacity < 2 ^ 32) (hlength : h.hasNonwritableArrayLength = true → requiredCapacity ≤ h.length)
    : ∃ result obj' before' h' body', (obj.place before h body).extendDenseElements alloc barrier requiredCapacity extra
        = some (result, obj'.place before' h' body')
      ∧ Preserves obj h body obj' before' h' body' ∧ (result = .Success → requiredCapacity ≤ h'.capacity) := by
  have hsame : Preserves obj h body obj before h body := Same.refl.preserves hg
  have hsparse : ∃ sparse, (if requiredCapacity > MIN_SPARSE_INDEX then
        (obj.place before h body).willBeSparseElements requiredCapacity extra else some false) = some sparse
      ∧ (sparse = false → requiredCapacity ≤ MAX_DENSE_ELEMENTS_COUNT) := by
    split
    next hmin => exact willBeSparseElements_place hxs hg extra hmin hreq
    next hmin => exact ⟨false, rfl, fun _ => Nat.le_trans (Nat.not_lt.mp hmin) (by decide)⟩
  unfold extendDenseElements
  rw [getElementsHeader_place, some_bind, MOZ_ASSERT_of (by simp [hcow]), some_bind,
    MOZ_ASSERT_isExtensible hextensible, some_bind]
  split
  next => exact ⟨.Incomplete, obj, before, h, body, rfl, hsame, (nomatch ·)⟩
  next =>
    obtain ⟨sparse, hrun, hmax⟩ := hsparse
    rw [hrun, some_bind]
    cases sparse with
    | true => exact ⟨.Incomplete, obj, before, h, body, rfl, hsame, (nomatch ·)⟩
    | false =>
      obtain ⟨grown, obj', before', h', body', hgrow, hpreserves, hcapacity, _⟩ := growElements_place alloc hg barrier
        hextensible hcow hreq huint fun hnonwritable => ⟨hlength hnonwritable, hmax rfl⟩
      rw [if_neg Bool.false_ne_true, hgrow, some_bind]
      refine ⟨_, obj', before', h', body', rfl, hpreserves, fun hsuccess => ?_⟩
      cases grown with
      | true => exact (hcapacity rfl).2
      | false => exact nomatch hsuccess

theorem extendAndInitialize_place {index extra : Nat} (hreq : h.capacity < index + extra)
    (huint : index + extra < 2 ^ 32) (hlength : h.hasNonwritableArrayLength = true → index + extra ≤ h.length)
    : Extends body h index extra
        ((obj.place before h body).extendAndInitialize alloc barrier (index + extra) index extra) := by
  obtain ⟨result, obj₁, before₁, h₁, body₁, hextend, hpreserves, hcapacity⟩ :=
    extendDenseElements_place hxs hg hextensible hcow alloc barrier extra hreq huint hlength
  have hextensible₁ : obj₁.isExtensible = true := hpreserves.isExtensible.trans hextensible
  unfold extendAndInitialize
  rw [hextend, some_bind]
  dsimp only
  split
  next hfails => exact .fails hpreserves.good hextensible₁ hpreserves.elements hfails
  next hsuccess =>
    obtain ⟨h', body', hrun, hg', helements⟩ := hpreserves.good.ensureDenseInitializedLength hextensible₁
      ((ObjectElements.isCopyOnWrite_of_flags hpreserves.flags).trans hcow) (hcapacity (not_not.mp hsuccess))
    rw [hrun]
    refine ⟨.Success, obj₁, before₁, h', body', rfl, hg', hextensible₁, ?_⟩
    rw [if_pos rfl, helements, hpreserves.elements, hpreserves.initializedLength]

end Dense

structure Copied (obj : NativeObject α) (h : ObjectElements) (body : List (HeapSlot α)) (obj' : NativeObject α)
    (before' : List (HeapSlot α)) (h' : ObjectElements) (body' : List (HeapSlot α)) : Prop where
  storage : obj' = obj ∨ obj' = obj.dynamic
  good : obj'.Good before' h' body'
  elements : body'.take h'.initializedLength = body.take h.initializedLength
  initializedLength : h'.initializedLength = h.initializedLength
  length : h'.length = h.length
  nonwritable : h'.hasNonwritableArrayLength = h.hasNonwritableArrayLength
  sealed : h'.flags &&& SEALED = h.flags &&& SEALED
  frozen : h'.flags &&& FROZEN = h.flags &&& FROZEN
  capacity : h.isCopyOnWrite = false → h'.capacity = h.capacity

theorem Copied.refl (hg : obj.Good before h body) : Copied obj h body obj before h body :=
  ⟨.inl rfl, hg, rfl, rfl, rfl, rfl, rfl, rfl, fun _ => rfl⟩

theorem Copied.isExtensible (hc : Copied obj h body obj' before' h' body') : obj'.isExtensible = obj.isExtensible := by
  rcases hc.storage with rfl | rfl <;> rfl

def CopiesForWrite (alloc : Allocator) (h : ObjectElements) : Prop :=
  h.isCopyOnWrite = true → ∀ n, goodElementsAllocationAmount h.initializedLength 0 = some n → alloc n = true

theorem maybeCopyElementsForWrite_place (alloc : Allocator) (hg : obj.Good before h body)
    (hextensible : h.isCopyOnWrite = true → obj.isExtensible = true)
    : ∃ copied, ∃ obj' : NativeObject α, ∃ before' h' body',
        (obj.place before h body).maybeCopyElementsForWrite alloc = some (copied, obj'.place before' h' body')
      ∧ Copied obj h body obj' before' h' body' ∧ (copied = true ↔ CopiesForWrite alloc h)
      ∧ (copied = true → h'.isCopyOnWrite = false) := by
  unfold maybeCopyElementsForWrite
  rw [getElementsHeader_place, some_bind]
  cases hcow : h.isCopyOnWrite with
  | false =>
    have hcopies : CopiesForWrite alloc h := fun hcow' => absurd (hcow.symm.trans hcow') Bool.false_ne_true
    exact ⟨true, obj, before, h, body, rfl, .refl hg, ⟨fun _ => hcopies, fun _ => rfl⟩, fun _ => hcow⟩
  | true =>
    rw [if_pos rfl]
    obtain ⟨n, hgood, hrun⟩ := CopyElementsForWrite_place alloc hg (hextensible hcow) hcow
    split at hrun
    next halloc =>
      refine ⟨false, obj, before, h, body, hrun, .refl hg, ⟨(nomatch ·), fun hcopies => ?_⟩, (nomatch ·)⟩
      exact absurd (halloc.symm.trans (hcopies hcow n hgood)) Bool.false_ne_true
    next halloc =>
      obtain ⟨h', body', hrun, hg', helements, hinitialized, hlength, hcow', hnonwritable⟩ := hrun
      obtain ⟨hsealed, hfrozen⟩ := hg.of_isExtensible (hextensible hcow)
      obtain ⟨hsealed', hfrozen'⟩ := hg'.of_isExtensible (hextensible hcow)
      refine ⟨true, obj.dynamic, [], h', body', hrun, ⟨.inr rfl, hg', helements, hinitialized, hlength, hnonwritable,
        hsealed'.trans hsealed.symm, hfrozen'.trans hfrozen.symm, fun hcow' => ?_⟩, ⟨fun _ _ n' hgood' => ?_, fun _ => rfl⟩,
        fun _ => hcow'⟩
      . exact absurd (hcow'.symm.trans hcow) Bool.false_ne_true
      rw [hgood] at hgood'
      cases hgood'
      exact Bool.not_eq_false _ ▸ halloc

theorem ensureDenseElements_place (copyAlloc alloc : Allocator) (barrier : Bool) (hg : obj.Good before h body)
    (hextensible : obj.isExtensible = true) {xs : List (Value α)} (hxs : body.take h.initializedLength = xs.map .value)
    {index extra : Nat} (hindex : index < 2 ^ 32) (hextra : extra < 2 ^ 32)
    (hlength : h.hasNonwritableArrayLength = true → index + extra ≤ h.length ∨ 2 ^ 32 ≤ index + extra
      ∨ h.isCopyOnWrite = false ∧ index + extra ≤ h.capacity)
    : Extends body h index extra ((obj.place before h body).ensureDenseElements copyAlloc alloc barrier index extra) := by
  obtain ⟨copied, obj₁, before₁, h₁, body₁, hcopy, hcopied, _, hcow₁⟩ :=
    maybeCopyElementsForWrite_place copyAlloc hg fun _ => hextensible
  have hg₁ := hcopied.good
  have helements₁ := hcopied.elements
  have hinitialized₁ := hcopied.initializedLength
  have hextensible₁ : obj₁.isExtensible = true := hcopied.isExtensible.trans hextensible
  have hfails (result : DenseElementResult) (hresult : result ≠ .Success)
      : Extends body h index extra (some (result, obj₁.place before₁ h₁ body₁)) :=
    .fails hg₁ hextensible₁ helements₁ hresult
  unfold ensureDenseElements
  rw [MOZ_ASSERT_isExtensible hextensible, some_bind, hcopy, some_bind]
  dsimp only
  cases copied with
  | false => exact hfails .Failure (nomatch ·)
  | true =>
    have hroom (hle : index + extra ≤ h₁.capacity)
        : Extends body h index extra do return (.Success,
            ← (obj₁.place before₁ h₁ body₁).ensureDenseInitializedLengthNoPackedCheck index extra) := by
      obtain ⟨h', body', hrun, hg', helements⟩ := hg₁.ensureDenseInitializedLength hextensible₁ (hcow₁ rfl) hle
      rw [hrun]
      refine ⟨.Success, obj₁, before₁, h', body', rfl, hg', hextensible₁, ?_⟩
      rw [if_pos rfl, helements, helements₁, hinitialized₁]
    have hextend (hreq : h₁.capacity < index + extra) (huint : index + extra < 2 ^ 32)
        : Extends body h index extra
            ((obj₁.place before₁ h₁ body₁).extendAndInitialize alloc barrier (index + extra) index extra) := by
      have hwritable : h₁.hasNonwritableArrayLength = true → index + extra ≤ h₁.length := by
        intro hnonwritable
        rw [hcopied.nonwritable] at hnonwritable
        rw [hcopied.length]
        rcases hlength hnonwritable with hle | hoverflow | ⟨hcow, hle⟩
        . exact hle
        . omega
        . rw [hcopied.capacity hcow] at hreq
          omega
      have hrun := extendAndInitialize_place (helements₁.trans hxs) hg₁ hextensible₁ (hcow₁ rfl) alloc barrier hreq huint
        hwritable
      unfold Extends at hrun
      rw [helements₁, hinitialized₁] at hrun
      exact hrun
    rw [if_neg (not_not.mpr rfl), getElementsHeader_place, some_bind]
    split
    next hone =>
      subst hone
      split
      next hlt => exact hroom hlt
      next hlt =>
        split
        next => exact hfails .Incomplete (nomatch ·)
        next hnonzero =>
          have huint : index + 1 < 2 ^ 32 := by omega
          rw [Nat.mod_eq_of_lt huint]
          exact hextend (by omega) huint
    next =>
      split
      next => exact hfails .Incomplete (nomatch ·)
      next hnot =>
        have huint : index + extra < 2 ^ 32 := by omega
        rw [Nat.mod_eq_of_lt huint]
        split
        next hle => exact hroom hle
        next hlt => exact hextend (by omega) huint

end NativeObject
end SpiderMonkey.Elements
