import SpiderMonkey.Builtin.Lemmas.ArraySetLength

/-!
This module contains the theorem about the length of arrays, and what is left of an array when it is set.
-/

namespace SpiderMonkey.Elements

open NativeObject

variable {α Object : Type}

def HasValues (obj : NativeObject α) (h : ObjectElements) (xs : List (Value α)) : Prop :=
  ∃ obj' before body, obj = NativeObject.place obj' before h body ∧ Filled obj' before h body xs

structure IsArray (arr : ArrayObject α Object) (h : ObjectElements) (xs : List (Value α)) : Prop where
  values : HasValues arr.elements h xs
  initializedLength_le : h.initializedLength ≤ h.length
  length_lt : h.length < 2 ^ 32
  capacity_le : h.hasNonwritableArrayLength = true → h.capacity ≤ h.length
  capacity_eq : arr.elements.isExtensible = false → h.capacity = h.initializedLength
  copyOnWrite : h.isCopyOnWrite = true → arr.elements.isExtensible = true ∧ h.hasNonwritableArrayLength = false
  frozen : h.isFrozen = true → h.hasNonwritableArrayLength = true
  lengthReadonly : arr.lengthReadonly = h.hasNonwritableArrayLength
  apart : Apart xs arr.properties
  properties_lt : ∀ i ∈ arr.properties.map Prod.fst, i < h.length
  isIndexed : arr.elements.isIndexed = false → arr.properties = []

structure Consistent (h : ObjectElements) : Prop where
  initializedLength_le_length : h.initializedLength ≤ h.length
  initializedLength_le_capacity : h.initializedLength ≤ h.capacity
  capacity_le_length : h.hasNonwritableArrayLength = true → h.capacity ≤ h.length

def Environment.Fails (env : Environment) : Prop :=
  (∃ n, env.copyAlloc n = false) ∨ env.GetPropertyKeys = false ∨ env.resize = false ∨ env.changeProperty = false
    ∨ ∃ i, env.removeProperty i = false ∨ env.SuppressDeletedProperty i = false ∨ env.CheckForInterrupt i = false
      ∨ env.append i = false

variable (arr : ArrayObject α Object) (h : ObjectElements) (xs : List (Value α)) (env : Environment)
  (attrs : PropertyAttributes) (value : LengthValue)

-- The properties are those below the length, which is what was asked for or one more than the last index that cannot be
-- deleted, and only the latter is a failure. Nothing changes when the length cannot be defined so.
def SetExactly (outcome : Outcome) (arr' : ArrayObject α Object) (h' : ObjectElements) (xs' : List (Value α)) : Prop :=
  ∃ newLen, requestedLength attrs.ignoreValue h.length value = some newLen
    ∧ if breaksInvariants attrs (!h.hasNonwritableArrayLength) ∨ h.hasNonwritableArrayLength then
        h'.length = h.length ∧ h'.hasNonwritableArrayLength = h.hasNonwritableArrayLength
          ∧ arr'.lengthReadonly = arr.lengthReadonly
          ∧ ownProperty xs' arr'.properties = ownProperty xs arr.properties
          ∧ outcome = if breaksInvariants attrs (!h.hasNonwritableArrayLength) then .fail .JSMSG_CANT_REDEFINE_PROP
            else if newLen = h.length then .succeed
            else .fail .JSMSG_CANT_REDEFINE_ARRAY_LENGTH
      else ∃ n, TruncatesTo h (ownProperty xs arr.properties) newLen n
        ∧ h'.length = n ∧ h'.hasNonwritableArrayLength = attrs.readonly ∧ arr'.lengthReadonly = attrs.readonly
        ∧ ownProperty xs' arr'.properties = below n (ownProperty xs arr.properties)
        ∧ outcome = if n = newLen then .succeed else .fail .JSMSG_CANT_TRUNCATE_ARRAY

def SetsLength : Prop :=
  ∃ outcome arr' h' xs', arr.ArraySetLength env attrs value = some (outcome, arr') ∧ HasValues arr'.elements h' xs'
    ∧ (h'.flags &&& SEALED = h.flags &&& SEALED ∧ h'.flags &&& FROZEN = h.flags &&& FROZEN) ∧ Consistent h'
    ∧ if outcome = .exception then
        requestedLength attrs.ignoreValue h.length value = none ∨ env.Fails
      else SetExactly arr h xs attrs value outcome arr' h' xs'

def DeletesEach (newLen : Nat) : Prop :=
  newLen < h.length ∧ (arr.elements.isIndexed = true ∨ env.MaybeInIteration = true ∨ h.isSealed = true)

-- Elements are deleted one by one, all that can be, and then it fails to make the length read-only, while some of the
-- elements are past the length that is already set.
def LeavesElements : Prop :=
  ∃ newLen n, requestedLength attrs.ignoreValue h.length value = some newLen
    ∧ breaksInvariants attrs (!h.hasNonwritableArrayLength) = false ∧ h.hasNonwritableArrayLength = false
    ∧ CopiesForWrite env.copyAlloc h ∧ DeletesEach arr h env newLen
    ∧ TruncatesTo h (ownProperty xs arr.properties) newLen n
    ∧ env.Completes (ownProperty xs arr.properties) newLen h.length n
    ∧ attrs.readonly = true ∧ env.changeProperty = false ∧ n < h.initializedLength

variable {h' : ObjectElements}

section

variable {obj : NativeObject α} {before body : List (HeapSlot α)} {properties : List (Nat × Property Object)} {n : Nat}
variable {arr h xs env attrs value}

theorem permanent_congr (hsealed : h'.flags &&& SEALED = h.flags &&& SEALED)
    (hfrozen : h'.flags &&& FROZEN = h.flags &&& FROZEN) (p : OwnProperty α Object) : permanent h' p = permanent h p := by
  unfold permanent ObjectElements.isSealed ObjectElements.isFrozen
  rw [hsealed, hfrozen]

theorem below_none_of_le {n i : Nat} (own : Nat → Option (OwnProperty α Object)) (hi : n ≤ i) : below n own i = none :=
  if_neg (Nat.not_lt.mpr hi)

variable {own : Nat → Option (OwnProperty α Object)}

theorem lookup_of_below {n i : Nat}
    (hown : ownProperty xs properties = below n own) (hi : n ≤ i) : (properties.lookup i).map (OwnProperty.shape (α := α)) = none := by
  have hnone := (congrFun hown i).trans (below_none_of_le own hi)
  unfold ownProperty at hnone
  split at hnone
  next => cases hnone
  next => exact hnone

theorem ownProperty_take_of_below
    (hown : ownProperty xs properties = below n own) : ownProperty (xs.take n) properties = below n own := by
  funext i
  rw [ownProperty_take]
  split
  next => exact congrFun hown i
  next hi =>
    have hle := Nat.not_lt.mp hi
    exact (lookup_of_below hown hle).trans (below_none_of_le own hle).symm

theorem defineLength_sets (hf : Filled obj before h body xs) (hcow : h.isCopyOnWrite = false)
    (hfrozen : h.flags &&& FROZEN = 0) (hwritable : h.hasNonwritableArrayLength = false) (readonly succeeded : Bool)
    (hown : ownProperty xs properties = below n own)
    : ∃ outcome arr' h' xs', (ArrayObject.mk (obj.place before h body) properties false).defineLength env readonly n
          succeeded = some (outcome, arr')
      ∧ HasValues arr'.elements h' xs'
      ∧ (h'.flags &&& SEALED = h.flags &&& SEALED ∧ h'.flags &&& FROZEN = h.flags &&& FROZEN)
      ∧ (Consistent h' ↔ ¬(readonly = true ∧ env.changeProperty = false ∧ n < h.initializedLength))
      ∧ if outcome = .exception then readonly = true ∧ env.changeProperty = false
        else h'.length = n ∧ h'.hasNonwritableArrayLength = readonly ∧ arr'.lengthReadonly = readonly
          ∧ ownProperty xs' arr'.properties = below n own
          ∧ outcome = if succeeded then .succeed else .fail .JSMSG_CANT_TRUNCATE_ARRAY := by
  obtain ⟨obj', before', h', body', xs', lengthReadonly', hrun, hf', hlength, hflags, hfailed, hdefined⟩ :=
    defineLength_place properties env hf hcow hfrozen hwritable false readonly n succeeded
  refine ⟨_, _, h', xs', hrun, ⟨obj', before', body', rfl, hf'⟩, hflags, ?_, ?_⟩
  . by_cases hfails : readonly = true ∧ env.changeProperty = false
    . obtain ⟨hinitialized, hwritable'⟩ := hfailed hfails
      constructor
      . intro hconsistent hleft
        have hle := hconsistent.initializedLength_le_length
        omega
      intro hnot
      refine ⟨?_, hf'.good.initializedLength_le, fun hnonwritable => absurd (hwritable'.symm.trans hnonwritable) Bool.false_ne_true⟩
      by_contra hle
      exact hnot ⟨hfails.1, hfails.2, by omega⟩
    . obtain ⟨hnonwritable, _, hcapacity, hxs'⟩ := hdefined hfails
      have hinitialized : h'.initializedLength ≤ h'.length := by
        rw [hf'.length, hxs', hlength, List.length_take]
        exact Nat.min_le_left _ _
      refine ⟨fun _ hleft => hfails ⟨hleft.1, hleft.2.1⟩, fun _ => ⟨hinitialized, hf'.good.initializedLength_le, ?_⟩⟩
      intro hnonwritable'
      rw [hcapacity (hnonwritable.symm.trans hnonwritable')]
      exact hinitialized
  . by_cases hfails : readonly = true ∧ env.changeProperty = false
    . rw [if_pos hfails, if_pos rfl]
      exact hfails
    obtain ⟨hnonwritable, hlengthReadonly, _, hxs'⟩ := hdefined hfails
    have hnot : (if succeeded = true then Outcome.succeed else .fail .JSMSG_CANT_TRUNCATE_ARRAY) ≠ .exception := by
      cases succeeded <;> exact (nomatch ·)
    rw [if_neg hfails, if_neg hnot]
    refine ⟨hlength, hnonwritable, hlengthReadonly.trans (Bool.or_false _), ?_, rfl⟩
    rw [hxs']
    exact ownProperty_take_of_below hown

theorem TruncatesTo.congr (hflags : h'.flags &&& SEALED = h.flags &&& SEALED ∧ h'.flags &&& FROZEN = h.flags &&& FROZEN)
    (ht : TruncatesTo h' own newLen n) : TruncatesTo h own newLen n where
  le := ht.le
  stops := by
    intro hlt
    obtain ⟨p, hp, hperm⟩ := ht.stops hlt
    exact ⟨p, hp, (permanent_congr hflags.1 hflags.2 p).symm.trans hperm⟩
  removable := by
    intro i p hi hp
    exact (permanent_congr hflags.1 hflags.2 p).symm.trans (ht.removable i p hi hp)

-- Elements are left behind the new length when the deletions one by one are followed by a failure to set the length.
def LeavesBehind (arr : ArrayObject α Object) (h : ObjectElements) (own : Nat → Option (OwnProperty α Object))
    (env : Environment) (readonly : Bool) (newLen : Nat) : Prop :=
  DeletesEach arr h env newLen
    ∧ ∃ n, TruncatesTo h own newLen n ∧ env.Completes own newLen h.length n
      ∧ readonly = true ∧ env.changeProperty = false ∧ n < h.initializedLength

def Redefined (h : ObjectElements) (own : Nat → Option (OwnProperty α Object)) (env : Environment) (readonly : Bool)
    (newLen : Nat) (outcome : Outcome) (arr' : ArrayObject α Object) (h' : ObjectElements) (xs' : List (Value α)) :
    Prop :=
  if outcome = .exception then
    readonly = true ∧ env.changeProperty = false
      ∨ ∀ n, TruncatesTo h own newLen n → ¬env.Completes own newLen h.length n
  else ∃ n, TruncatesTo h own newLen n
    ∧ h'.length = n ∧ h'.hasNonwritableArrayLength = readonly ∧ arr'.lengthReadonly = readonly
    ∧ ownProperty xs' arr'.properties = below n own
    ∧ outcome = if n = newLen then .succeed else .fail .JSMSG_CANT_TRUNCATE_ARRAY

variable (env) in
theorem redefineLength_sets (hf : Filled obj before h body xs) (hcow : h.isCopyOnWrite = false)
    (hfrozen : h.flags &&& FROZEN = 0) (hwritable : h.hasNonwritableArrayLength = false) (ha : Apart xs properties)
    (hcapacity : obj.isExtensible = false → h.capacity = h.initializedLength)
    (hindexed : obj.isIndexed = false → properties = []) (hle : h.initializedLength ≤ h.length)
    (huint : h.length < 2 ^ 32) (hlt : ∀ i p, ownProperty xs properties i = some p → i < h.length) (readonly : Bool)
    (newLen : Nat)
    : ∃ outcome arr' h' xs', (ArrayObject.mk (obj.place before h body) properties false).redefineLength env readonly newLen
          h.length = some (outcome, arr')
      ∧ HasValues arr'.elements h' xs'
      ∧ (h'.flags &&& SEALED = h.flags &&& SEALED ∧ h'.flags &&& FROZEN = h.flags &&& FROZEN)
      ∧ (Consistent h' ↔ ¬LeavesBehind (ArrayObject.mk obj properties false) h (ownProperty xs properties) env readonly newLen)
      ∧ Redefined h (ownProperty xs properties) env readonly newLen outcome arr' h' xs' := by
  obtain ⟨result, obj₁, before₁, h₁, body₁, xs₁, properties₁, hrun, hf₁, hkept, heach, hatonce⟩ :=
    deleteElements_place env hf hcow hfrozen ha hcapacity hindexed false newLen hle huint hlt
  have hcow₁ := hkept.isCopyOnWrite.trans hcow
  have hfrozen₁ := hkept.frozen.trans hfrozen
  have hwritable₁ := hkept.nonwritable.trans hwritable
  have hdefines (n : Nat) (succeeded : Bool) (ht : TruncatesTo h (ownProperty xs properties) newLen n)
      (hown : ownProperty xs₁ properties₁ = below n (ownProperty xs properties)) (hsucceeded : succeeded = decide (n = newLen))
      (hleft : readonly = true ∧ env.changeProperty = false ∧ n < h₁.initializedLength
        ↔ LeavesBehind (ArrayObject.mk obj properties false) h (ownProperty xs properties) env readonly newLen)
      : ∃ outcome arr' h' xs', (ArrayObject.mk (obj₁.place before₁ h₁ body₁) properties₁ false).defineLength env readonly n
            succeeded = some (outcome, arr')
        ∧ HasValues arr'.elements h' xs'
        ∧ (h'.flags &&& SEALED = h.flags &&& SEALED ∧ h'.flags &&& FROZEN = h.flags &&& FROZEN)
        ∧ (Consistent h' ↔ ¬LeavesBehind (ArrayObject.mk obj properties false) h (ownProperty xs properties) env readonly newLen)
        ∧ Redefined h (ownProperty xs properties) env readonly newLen outcome arr' h' xs' := by
    obtain ⟨outcome, arr', h', xs', hdefine, hvalues, hflags, hconsistent, hspec⟩ :=
      defineLength_sets hf₁ hcow₁ hfrozen₁ hwritable₁ readonly succeeded hown
    refine ⟨outcome, arr', h', xs', hdefine, hvalues, ⟨hflags.1.trans hkept.sealed, hflags.2.trans hkept.frozen⟩,
      hconsistent.trans (not_congr hleft), ?_⟩
    unfold Redefined
    split
    next hexception =>
      rw [if_pos hexception] at hspec
      exact .inl hspec
    next hexception =>
      rw [if_neg hexception] at hspec
      obtain ⟨hlength, hnonwritable, hreadonly, hown', houtcome⟩ := hspec
      refine ⟨n, ht, hlength, hnonwritable, hreadonly, hown', houtcome.trans ?_⟩
      rw [hsucceeded]
      exact if_congr decide_eq_true_iff rfl rfl
  unfold ArrayObject.redefineLength
  rw [hrun, some_bind]
  by_cases hslow : DeletesEach (ArrayObject.mk obj properties false) h env newLen
  . obtain ⟨rfl, hends⟩ := heach hslow
    have hleft {n : Nat} (ht : TruncatesTo h₁ (ownProperty xs properties) newLen n)
        (hcompletes : env.Completes (ownProperty xs properties) newLen h₁.length n)
        : readonly = true ∧ env.changeProperty = false ∧ n < h₁.initializedLength
          ↔ LeavesBehind (ArrayObject.mk obj properties false) h₁ (ownProperty xs properties) env readonly newLen := by
      constructor
      . exact fun hleft => ⟨hslow, n, ht, hcompletes, hleft⟩
      rintro ⟨_, m, hm, _, hleft⟩
      obtain rfl := hm.unique ht
      exact hleft
    cases result with
    | exception =>
      refine ⟨.exception, _, h₁, xs₁, rfl, ⟨obj₁, before₁, body₁, rfl, hf₁⟩, ⟨rfl, rfl⟩, ⟨fun _ => ?_, fun _ => ?_⟩,
        .inr hends⟩
      . rintro ⟨_, n, ht, hcompletes, _⟩
        exact hends n ht hcompletes
      . exact ⟨hle, hf₁.good.initializedLength_le, fun hnonwritable =>
          absurd (hwritable.symm.trans hnonwritable) Bool.false_ne_true⟩
    | stopped n =>
      obtain ⟨hlt', ht, hcompletes, hown⟩ := hends
      exact hdefines n false ht hown (decide_eq_false (Nat.ne_of_gt hlt')).symm (hleft ht hcompletes)
    | finished =>
      obtain ⟨ht, hcompletes, hown⟩ := hends
      exact hdefines newLen true ht hown (decide_eq_true rfl).symm (hleft ht hcompletes)
  . obtain ⟨rfl, ht, hown, hinitialized⟩ := hatonce hslow
    apply hdefines newLen true ht hown (decide_eq_true rfl).symm
    exact ⟨fun hleft => absurd hleft.2.2 (Nat.not_lt.mpr hinitialized), fun hleft => absurd hleft.1 hslow⟩

theorem fails_of_not_copies (hnot : ¬CopiesForWrite env.copyAlloc h) : env.Fails := by
  by_contra hfails
  apply hnot
  intro _ n _
  exact Bool.eq_true_of_not_eq_false fun hn => hfails (.inl ⟨n, hn⟩)

theorem fails_of_not_completes (hnot : ¬env.Completes own newLen oldLen n) : env.Fails := by
  by_contra hfails
  simp only [Environment.Fails, not_or, not_exists, Bool.not_eq_false] at hfails
  obtain ⟨_, hkeys, hresize, _, hindexes⟩ := hfails
  apply hnot
  refine ⟨fun i p _ _ => ?_, fun _ => ⟨hkeys, hresize, fun i p _ => ⟨(hindexes i).2.2.1, fun _ => (hindexes i).2.2.2⟩⟩⟩
  obtain ⟨hremove, hsuppress, _⟩ := hindexes i
  cases p with
  | dense v => exact hsuppress
  | shape p => exact Bool.and_eq_true_iff.mpr ⟨hremove, hsuppress⟩

theorem DeletesEach.congr (hindexed : arr'.elements.isIndexed = arr.elements.isIndexed) (hlength : h'.length = h.length)
    (hsealed : h'.flags &&& SEALED = h.flags &&& SEALED)
    : DeletesEach arr' h' env newLen ↔ DeletesEach arr h env newLen := by
  unfold DeletesEach ObjectElements.isSealed
  rw [hindexed, hlength, hsealed]

theorem ownProperty_lt (hle : xs.length ≤ n) (hlt : ∀ i ∈ properties.map Prod.fst, i < n) {i : Nat}
    (hp : ownProperty xs properties i = some p) : i < n := by
  by_contra hi
  have hi := Nat.not_lt.mp hi
  unfold ownProperty at hp
  rw [denseAt_of_le (Nat.le_trans hle hi), lookup_eq_none_of_not_mem fun hmem => Nat.not_lt.mpr hi (hlt i hmem)] at hp
  cases hp

end

theorem ArraySetLength_run (ha : IsArray arr h xs)
    : ∃ outcome arr' h' xs', arr.ArraySetLength env attrs value = some (outcome, arr') ∧ HasValues arr'.elements h' xs'
      ∧ (h'.flags &&& SEALED = h.flags &&& SEALED ∧ h'.flags &&& FROZEN = h.flags &&& FROZEN)
      ∧ (Consistent h' ↔ ¬LeavesElements arr h xs env attrs value)
      ∧ if outcome = .exception then
          requestedLength attrs.ignoreValue h.length value = none ∨ env.Fails
        else SetExactly arr h xs attrs value outcome arr' h' xs' := by
  obtain ⟨elements, properties, lengthReadonly⟩ := arr
  obtain ⟨⟨obj, before, body, hplace, hf⟩, hle, huint, hcapacity, hcapacity_eq, hcowable, hfrozen, hreadonly, hapart, hlt,
    hindexed⟩ := ha
  dsimp only at hplace
  subst hplace
  dsimp only at hreadonly hapart hlt hindexed
  obtain ⟨copied, obj₁, before₁, h₁, body₁, hcopy, hc, hcopies, hcow₁⟩ :=
    maybeCopyElementsForWrite_place env.copyAlloc hf.good fun hcow => (hcowable hcow).1
  have hextensible : obj₁.isExtensible = obj.isExtensible := hc.isExtensible
  have hindexed₁ : obj₁.isIndexed = obj.isIndexed := by
    rcases hc.storage with rfl | rfl <;> rfl
  have hf₁ : Filled obj₁ before₁ h₁ body₁ xs := by
    refine ⟨hc.good, hc.elements.trans hf.values, ?_⟩
    rcases hc.storage with rfl | rfl
    . exact hf.storage
    . exact (nomatch ·)
  have hconsistent : Consistent h₁ := by
    refine ⟨hc.initializedLength ▸ hc.length ▸ hle, hf₁.good.initializedLength_le, fun hnonwritable => ?_⟩
    have hnonwritable := hc.nonwritable.symm.trans hnonwritable
    have hcow : h.isCopyOnWrite = false :=
      Bool.eq_false_of_not_eq_true fun hcow => absurd ((hcowable hcow).2.symm.trans hnonwritable) Bool.false_ne_true
    rw [hc.capacity hcow, hc.length]
    exact hcapacity hnonwritable
  unfold ArrayObject.ArraySetLength
  dsimp only
  rw [hcopy, some_bind]
  dsimp only
  have hvalues₁ : HasValues (obj₁.place before₁ h₁ body₁) h₁ xs := ⟨obj₁, before₁, body₁, rfl, hf₁⟩
  cases copied with
  | false =>
    have hnot : ¬CopiesForWrite env.copyAlloc h := fun hall => absurd (hcopies.mpr hall) Bool.false_ne_true
    refine ⟨.exception, _, h₁, xs, rfl, hvalues₁, ⟨hc.sealed, hc.frozen⟩, ⟨fun _ => ?_, fun _ => hconsistent⟩,
      .inr (fails_of_not_copies hnot)⟩
    rintro ⟨_, _, _, _, _, hall, _⟩
    exact hnot hall
  | true =>
    have hcow₁ := hcow₁ rfl
    rw [if_neg (by decide), getElementsHeader_place, some_bind, hc.length]
    cases hrequested : requestedLength attrs.ignoreValue h.length value with
    | none =>
      refine ⟨.exception, _, h₁, xs, rfl, hvalues₁, ⟨hc.sealed, hc.frozen⟩, ⟨fun _ => ?_, fun _ => hconsistent⟩, .inl rfl⟩
      rintro ⟨_, _, hsome, _⟩
      rw [hrequested] at hsome
      cases hsome
    | some newLen =>
      dsimp only
      have hassert : lengthReadonly = !!h₁.hasNonwritableArrayLength := by
        rw [hreadonly, hc.nonwritable, Bool.not_not]
      rw [MOZ_ASSERT_of hassert, some_bind, hc.nonwritable]
      cases hbreaks : breaksInvariants attrs (!h.hasNonwritableArrayLength) with
      | true =>
        rw [if_pos rfl]
        refine ⟨_, _, h₁, xs, rfl, hvalues₁, ⟨hc.sealed, hc.frozen⟩, ⟨fun _ => ?_, fun _ => hconsistent⟩, ?_⟩
        . rintro ⟨_, _, _, hbreaks', _⟩
          exact absurd (hbreaks'.symm.trans hbreaks) Bool.false_ne_true
        rw [if_neg (nomatch ·)]
        refine ⟨newLen, hrequested, ?_⟩
        rw [if_pos (.inl hbreaks), if_pos hbreaks]
        exact ⟨hc.length, hc.nonwritable, rfl, rfl, rfl⟩
      | false =>
        rw [if_neg Bool.false_ne_true]
        cases hnonwritable : h.hasNonwritableArrayLength with
        | true =>
          rw [if_pos (by decide)]
          have hnotLeft : ¬LeavesElements (ArrayObject.mk (obj.place before h body) properties lengthReadonly) h xs env
              attrs value := by
            rintro ⟨_, _, _, _, hwritable, _⟩
            exact absurd (hwritable.symm.trans hnonwritable) Bool.false_ne_true
          have hsets (outcome : Outcome) (houtcome : outcome = if newLen = h.length then .succeed
              else .fail .JSMSG_CANT_REDEFINE_ARRAY_LENGTH)
              : SetExactly (ArrayObject.mk (obj.place before h body) properties lengthReadonly) h xs attrs value outcome
                (ArrayObject.mk (obj₁.place before₁ h₁ body₁) properties lengthReadonly) h₁ xs := by
            refine ⟨newLen, hrequested, ?_⟩
            rw [if_pos (.inr hnonwritable), if_neg (Bool.eq_false_iff.mp hbreaks)]
            exact ⟨hc.length, hc.nonwritable, rfl, rfl, houtcome⟩
          by_cases hsame : newLen = h.length
          . rw [if_pos hsame]
            refine ⟨_, _, h₁, xs, rfl, hvalues₁, ⟨hc.sealed, hc.frozen⟩, ⟨fun _ => hnotLeft, fun _ => hconsistent⟩, ?_⟩
            rw [if_neg (nomatch ·)]
            exact hsets _ (if_pos hsame).symm
          rw [if_neg hsame]
          refine ⟨_, _, h₁, xs, rfl, hvalues₁, ⟨hc.sealed, hc.frozen⟩, ⟨fun _ => hnotLeft, fun _ => hconsistent⟩, ?_⟩
          rw [if_neg (nomatch ·)]
          exact hsets _ (if_neg hsame).symm
        | false =>
          rw [if_neg (by decide)]
          have hwritable₁ := hc.nonwritable.trans hnonwritable
          have hfrozen₀ : h.flags &&& FROZEN = 0 := by
            by_contra hne
            exact absurd (hnonwritable.symm.trans (hfrozen (decide_eq_true hne))) Bool.false_ne_true
          have hcapacity₁ : obj₁.isExtensible = false → h₁.capacity = h₁.initializedLength := by
            intro hnot
            have hnot := hextensible.symm.trans hnot
            have hcow : h.isCopyOnWrite = false :=
              Bool.eq_false_of_not_eq_true fun hcow => absurd (hnot.symm.trans (hcowable hcow).1) Bool.false_ne_true
            rw [hc.capacity hcow, hc.initializedLength]
            exact hcapacity_eq hnot
          obtain ⟨outcome, arr', h', xs', hrun, hvalues, hflags, hleft, hspec⟩ :=
            redefineLength_sets env hf₁ hcow₁ (hc.frozen.trans hfrozen₀) hwritable₁ hapart hcapacity₁
              (fun hnone => hindexed (hindexed₁.symm.trans hnone)) (hc.initializedLength ▸ hc.length ▸ hle)
              (hc.length ▸ huint) (fun _ _ hp => hc.length ▸ ownProperty_lt (hf.length ▸ hle) hlt hp) attrs.readonly newLen
          have heach : DeletesEach (ArrayObject.mk obj₁ properties false) h₁ env newLen
              ↔ DeletesEach (ArrayObject.mk (obj.place before h body) properties false) h env newLen :=
            DeletesEach.congr hindexed₁ hc.length hc.sealed
          have htruncates (n : Nat) : TruncatesTo h₁ (ownProperty xs properties) newLen n
              ↔ TruncatesTo h (ownProperty xs properties) newLen n :=
            ⟨.congr ⟨hc.sealed, hc.frozen⟩, .congr ⟨hc.sealed.symm, hc.frozen.symm⟩⟩
          unfold LeavesBehind at hleft
          unfold Redefined at hspec
          simp only [htruncates, heach, hc.length, hc.initializedLength] at hrun hleft hspec
          obtain rfl := hreadonly.trans hnonwritable
          refine ⟨outcome, arr', h', xs', hrun, hvalues, ⟨hflags.1.trans hc.sealed, hflags.2.trans hc.frozen⟩,
            hleft.trans (not_congr ⟨?_, ?_⟩), ?_⟩
          . rintro ⟨heach, n, ht, hcompletes, hfails⟩
            exact ⟨newLen, n, hrequested, hnonwritable ▸ hbreaks, hnonwritable, hcopies.mp rfl, heach, ht, hcompletes, hfails⟩
          . rintro ⟨newLen', n, hrequested', _, _, _, heach, ht, hcompletes, hfails⟩
            rw [hrequested] at hrequested'
            cases hrequested'
            exact ⟨heach, n, ht, hcompletes, hfails⟩
          split
          next hexception =>
            rw [if_pos hexception] at hspec
            right
            rcases hspec with ⟨_, hchange⟩ | hends
            . exact .inr (.inr (.inr (.inl hchange)))
            obtain ⟨n, ht⟩ := exists_truncatesTo h (ownProperty xs properties) newLen (h.length - newLen) (by
              intro i p hi hp
              have hlt := ownProperty_lt (hf.length ▸ hle) hlt hp
              omega)
            exact fails_of_not_completes (hends n ht)
          next hexception =>
            rw [if_neg hexception] at hspec
            refine ⟨newLen, hrequested, ?_⟩
            rw [if_neg (by rw [hbreaks, hnonwritable]; decide)]
            exact hspec

theorem HasValues.getElementsHeader {obj : NativeObject α}
    (hvalues : HasValues obj h xs) : obj.getElementsHeader = some h := by
  obtain ⟨obj', before, body, rfl, _⟩ := hvalues
  exact getElementsHeader_place

theorem SetsLength.consistent
    (hsets : SetsLength arr h xs env attrs value) (hrun : arr.ArraySetLength env attrs value = some (outcome, arr'))
    (hheader : arr'.elements.getElementsHeader = some h') : Consistent h' := by
  obtain ⟨outcome₁, arr₁, h₁, xs₁, hrun₁, hvalues₁, _, hconsistent, _⟩ := hsets
  rw [hrun] at hrun₁
  cases hrun₁
  rw [hvalues₁.getElementsHeader] at hheader
  cases hheader
  exact hconsistent

def threeElements : ArrayObject Nat Unit where
  elements := {
    slots := [.flags 0 3, .capacity 3 3, .value (.other 1), .value (.other 2), .value (.other 3)]
    elements_ := 2
    storage := .fixedElements
    isExtensible := true
    isIndexed := false
  }
  properties := []
  lengthReadonly := false

def inIteration : Environment where
  copyAlloc _ := true
  shrinkAlloc _ := true
  barrier := false
  MaybeInIteration := true
  removeProperty _ := true
  SuppressDeletedProperty _ := true
  GetPropertyKeys := true
  CheckForInterrupt _ := true
  append _ := true
  resize := true
  changeProperty := false

def makeReadonly : PropertyAttributes :=
  { PropertyAttributes.empty with readonly := true, ignoreEnumerate := true, ignorePermanent := true }

theorem isArray_threeElements : IsArray threeElements ⟨0, 3, 3, 3⟩ [.other 1, .other 2, .other 3] where
  values := by
    refine ⟨threeElements.elements, [], [.value (.other 1), .value (.other 2), .value (.other 3)], rfl, ?_, rfl,
      (nomatch ·)⟩
    exact ⟨by decide, by decide, by decide, by decide, fun hne => absurd rfl hne, fun _ => by decide, (nomatch ·)⟩
  initializedLength_le := by decide
  length_lt := by decide
  capacity_le := by decide
  capacity_eq := by decide
  copyOnWrite := by decide
  frozen := by decide
  lengthReadonly := by decide
  apart := ⟨List.nodup_nil, List.forall_mem_nil _⟩
  properties_lt := List.forall_mem_nil _
  isIndexed _ := rfl

end SpiderMonkey.Elements
