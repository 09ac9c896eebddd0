import Mathlib.Data.List.Nodup
import SpiderMonkey.Lib.Ensures
import SpiderMonkey.Proxy.Lemmas.PropertyDescriptor

/-!
This module contains when the internal methods of a scripted proxy keep the invariants of the specification: always,
but for descriptors that turn a non-configurable property into one of the other kind with undefined fields. What each
method has checked when it returns comes first: either the handler has no trap, or the answer keeps the invariants
with the target as it is after the trap.
-/

open List Returns

namespace SpiderMonkey.ScriptedProxyHandler

open PropertyRecord PropertyDescriptor

variable {State Object : Type} {realm : Realm State Object} {s s' : State} {id : PropertyKey}

variable {keys : List PropertyKey} {desc : PropertyDescriptor Object}

section Read

@[simp]
theorem returns_reportError {α : Type} {errorNumber : ErrorNumber} {a : α}
    : Returns (reportError errorNumber : RealmM State Object α) s a s' ↔ False := throw_iff

@[simp]
theorem returns_Throw {α : Type} {errorNumber : ErrorNumber} {details : Option String} {a : α}
    : Returns (Throw id errorNumber details : RealmM State Object α) s a s' ↔ False := throw_iff

@[simp]
theorem returns_IsExtensible {b : Bool}
    : Returns (IsExtensible realm) s b s' ↔ (realm.target s).extensible = b ∧ s = s' := by
  simp [IsExtensible, and_assoc, and_comm]

@[simp]
theorem returns_GetPrototype {proto : Option Object}
    : Returns (GetPrototype realm) s proto s' ↔ (realm.target s).proto = proto ∧ s = s' := by
  simp [GetPrototype, and_assoc, and_comm]

@[simp]
theorem returns_GetPropertyKeys
    : Returns (GetPropertyKeys realm) s keys s' ↔ (realm.target s).keys = keys ∧ s = s' := by
  simp [GetPropertyKeys, and_assoc, and_comm]

def ownDescriptor (realm : Realm State Object) (s : State) (id : PropertyKey) : PropertyDescriptor Object :=
  match (realm.target s).getOwnProperty id with
  | none => .empty
  | some property => property.toDescriptor realm.targetObject

@[simp]
theorem returns_GetOwnPropertyDescriptor
    : Returns (GetOwnPropertyDescriptor realm id) s desc s' ↔ ownDescriptor realm s id = desc ∧ s = s' := by
  rw [GetOwnPropertyDescriptor, ownDescriptor]
  cases h : (realm.target s).getOwnProperty id <;> simp [and_assoc, h]

end Read

variable {property : Property Object}

section Descriptor

theorem lookup_of_mem {properties : List (PropertyKey × Property Object)}
    (hnodup : (properties.map Prod.fst).Nodup) (h : (id, property) ∈ properties)
    : properties.lookup id = some property := by
  induction properties with
  | nil => exact nomatch h
  | cons first rest ih =>
    obtain ⟨hfirst, hrest⟩ := nodup_cons.mp hnodup
    rw [lookup_cons]
    rcases mem_cons.mp h with rfl | h
    . simp
    have hne : id ≠ first.1 := by
      rintro rfl
      exact hfirst (mem_map.mpr ⟨_, h, rfl⟩)
    simp only [beq_eq_false_iff_ne.mpr hne]
    exact ih hrest h

theorem ownDescriptor_obj_eq_none
    : (ownDescriptor realm s id).obj = none ↔ (realm.target s).getOwnProperty id = none := by
  rw [ownDescriptor]
  cases (realm.target s).getOwnProperty id with
  | none => exact iff_of_true rfl rfl
  | some property => simp [toDescriptor_obj]

theorem configurable_record
    : some property.configurable = property.record.configurable := by
  cases property <;> simp [Property.configurable, Property.record]

theorem configurable_toDescriptor {o : Object}
    : (property.toDescriptor o).configurable = property.configurable := by
  cases property <;> simp [Property.toDescriptor, PropertyDescriptor.configurable, Property.configurable, Property.record]

theorem ownDescriptor_eq (hproperty : (realm.target s).getOwnProperty id = some property)
    : ownDescriptor realm s id = property.toDescriptor realm.targetObject := by
  rw [ownDescriptor, hproperty]

theorem mayBeAbsent_of_checks (h : (ownDescriptor realm s id).obj = none
      ∨ (ownDescriptor realm s id).configurable = true ∧ (realm.target s).extensible = true)
    : MayBeAbsent (realm.target s) id := by
  intro property hproperty
  rw [ownDescriptor_obj_eq_none, hproperty, ownDescriptor_eq hproperty, configurable_toDescriptor] at h
  exact h.resolve_left nofun

theorem record_configurable_eq_false
    : desc.record.configurable = some false ↔ desc.hasConfigurable = true ∧ desc.configurable = false := by
  simp [PropertyDescriptor.record]

theorem record_writable_eq_false
    : desc.record.writable = some false ↔ desc.hasWritable = true ∧ desc.writable = false := by
  simp [PropertyDescriptor.record]

theorem ToPropertyDescriptor_valid {o : Object} {checkAccessors : Bool}
    (h : Returns (ToPropertyDescriptor realm (.object o) checkAccessors) s desc s')
    : desc.Valid := by
  have hnone {get : Option (Value Object)} {fieldName : String} {getter : Option Object} {s s' : State}
      (h : Returns (ToAccessor realm checkAccessors fieldName get) s getter s') (hget : get.isSome = false)
      : getter = none := by
    cases get with
    | none => exact (pure_iff.mp h).left.symm
    | some v => exact nomatch hget
  simp only [ToPropertyDescriptor, bind_iff] at h
  obtain ⟨enumerable, s₁, -, configurable, s₂, -, value, s₃, -, writable, s₄, -, get, s₅, -, getter, s₆, hgetter,
    set, s₇, -, setter, s₈, hsetter, h⟩ := h
  simp only [ite_iff, returns_reportError, and_false, false_or, pure_iff] at h
  obtain ⟨hkinds, rfl, -⟩ := h
  have hgetter := hnone hgetter
  have hsetter := hnone hsetter
  constructor
  . cases enumerable <;> simp
  . cases configurable <;> simp
  . intro hkind
    simp only [isAccessorDescriptor] at hkind
    simp only [hkind, Bool.true_and] at hkinds ⊢
    cases writable <;> cases value <;> simp_all
  . exact fun hget _ => hgetter hget
  . exact fun hset _ => hsetter hset
  . intro _
    cases writable <;> simp
  . intro _
    cases value <;> simp

end Descriptor

section OwnKeys

theorem checkDuplicates_returns {uncheckedResultKeys r : List PropertyKey}
    (h : Returns (checkDuplicates uncheckedResultKeys keys : RealmM State Object _) s r s')
    (hnodup : uncheckedResultKeys.Nodup)
    : s = s' ∧ r.Nodup ∧ r = keys.reverse ++ uncheckedResultKeys := by
  induction keys generalizing uncheckedResultKeys with
  | nil =>
    simp [checkDuplicates] at h
    obtain ⟨rfl, rfl⟩ := h
    exact ⟨rfl, hnodup, rfl⟩
  | cons id rest ih =>
    simp [checkDuplicates] at h
    obtain ⟨hnew, h⟩ := h
    obtain ⟨hs, hr, heq⟩ := ih h (nodup_cons.mpr ⟨hnew, hnodup⟩)
    refine ⟨hs, hr, ?_⟩
    rw [heq, reverse_cons, append_assoc, singleton_append]

theorem removeKeys_returns {errorNumber : ErrorNumber} {uncheckedResultKeys r : List PropertyKey}
    (h : Returns (removeKeys errorNumber uncheckedResultKeys keys : RealmM State Object _) s r s')
    (hnodup : uncheckedResultKeys.Nodup)
    : s = s' ∧ r.Nodup ∧ (∀ id ∈ keys, id ∈ uncheckedResultKeys)
      ∧ ∀ id, id ∈ r ↔ id ∈ uncheckedResultKeys ∧ id ∉ keys := by
  induction keys generalizing uncheckedResultKeys with
  | nil =>
    simp [removeKeys] at h
    obtain ⟨rfl, rfl⟩ := h
    exact ⟨rfl, hnodup, nofun, fun id => by simp⟩
  | cons id rest ih =>
    simp [removeKeys] at h
    obtain ⟨hmem, h⟩ := h
    obtain ⟨hs, hr, hrest, hleft⟩ := ih h (hnodup.erase id)
    refine ⟨hs, hr, fun id' hid' => ?_, fun id' => ?_⟩
    . rcases mem_cons.mp hid' with rfl | hid'
      . exact hmem
      . exact mem_of_mem_erase (hrest id' hid')
    . rw [hleft, hnodup.mem_erase_iff, mem_cons, not_or]
      tauto

theorem mapM_GetOwnPropertyDescriptor
    (h : Returns (keys.mapM fun id => do return (id, ← GetOwnPropertyDescriptor realm id)) s descs s')
    : descs = (keys.map fun id => (id, ownDescriptor realm s id)) ∧ s = s' := by
  induction keys generalizing descs with
  | nil =>
    rw [mapM_nil, pure_iff] at h
    exact ⟨h.left.symm, h.right⟩
  | cons id rest ih =>
    rw [mapM_cons, bind_iff] at h
    obtain ⟨first, s₁, hfirst, h⟩ := h
    rw [bind_iff] at h
    obtain ⟨rest', s₂, hrest, h⟩ := h
    rw [bind_iff] at hfirst
    obtain ⟨desc, s₃, hdesc, hfirst⟩ := hfirst
    obtain ⟨rfl, rfl⟩ := returns_GetOwnPropertyDescriptor.mp hdesc
    obtain ⟨rfl, rfl⟩ := pure_iff.mp hfirst
    obtain ⟨rfl, rfl⟩ := pure_iff.mp h
    obtain ⟨rfl, rfl⟩ := ih hrest
    exact ⟨rfl, rfl⟩

def isNonconfigurable [DecidableEq Object] (desc : PropertyDescriptor Object) : Bool :=
  desc.obj ≠ none && !desc.configurable

theorem mem_partition {d : PropertyKey → PropertyDescriptor Object}
    {p : PropertyDescriptor Object → Bool}
    : id ∈ List.map Prod.fst (List.filter (fun x => p x.snd) (List.map (fun id => (id, d id)) keys))
        ↔ id ∈ keys ∧ p (d id) = true := by
  simp only [mem_map, mem_filter]
  constructor
  . rintro ⟨_, ⟨⟨id', hid', rfl⟩, hp⟩, rfl⟩
    exact ⟨hid', hp⟩
  . rintro ⟨hid, hp⟩
    exact ⟨_, ⟨⟨id, hid, rfl⟩, hp⟩, rfl⟩

theorem mem_nonconfigurable [DecidableEq Object] (hmem : (id, property) ∈ (realm.target s).properties)
    (hnonconfigurable : property.configurable = false)
    : id ∈ (realm.target s).keys ∧ isNonconfigurable (ownDescriptor realm s id) = true := by
  have hdesc : ownDescriptor realm s id = _ := ownDescriptor_eq (lookup_of_mem (realm.target s).nodup hmem)
  refine ⟨mem_map.mpr ⟨_, hmem, rfl⟩, ?_⟩
  rw [isNonconfigurable, hdesc, toDescriptor_obj, configurable_toDescriptor, hnonconfigurable]
  simp

end OwnKeys

def Outcome {α : Type} (realm : Realm State Object) (trap : RealmM State Object (Option (Value Object)))
    (own : RealmM State Object α) (s : State) (a : α) (s' : State) (allowed : OrdinaryObject Object → Prop) : Prop :=
  (∃ s₁, Returns trap s none s₁ ∧ Returns own s₁ a s')
    ∨ ∃ v s₁, Returns trap s (some v) s₁ ∧ allowed (realm.target s₁)

theorem Outcome.map {α β : Type} {trap : RealmM State Object (Option (Value Object))} {own : RealmM State Object α}
    {a : α} {s' : State} {allowed : OrdinaryObject Object → Prop} (f : α → β)
    (h : Outcome realm trap own s a s' allowed)
    : Outcome realm trap (f <$> own) s (f a) s' allowed := by
  rcases h with ⟨s₁, htrap, hown⟩ | h
  . exact Or.inl ⟨s₁, htrap, map_iff.mpr ⟨a, hown, rfl⟩⟩
  . exact Or.inr h

theorem Outcome.allowed {α : Type} {trap : RealmM State Object (Option (Value Object))} {own : RealmM State Object α}
    {a : α} {allowed : OrdinaryObject Object → Prop}
    (h : Outcome realm trap own s a s' allowed) (htrap : Returns trap s (some v) s₁)
    : allowed (realm.target s₁) := by
  rcases h with ⟨s₂, htrap', -⟩ | ⟨v', s₂, htrap', hallowed⟩
  . exact nomatch (htrap.unique htrap').left
  . rw [(htrap.unique htrap').right]
    exact hallowed

-- All the methods start with the call of the trap.
theorem outcome_of_trap {α : Type} {trap : RealmM State Object (Option (Value Object))} {a : α}
    {method : Option (Value Object) → RealmM State Object α} {allowed : OrdinaryObject Object → Prop}
    (h : Returns (trap >>= method) s a s')
    (hallowed : ∀ v s₁, Returns trap s (some v) s₁ → Returns (method (some v)) s₁ a s' → allowed (realm.target s₁))
    : Outcome realm trap (method none) s a s' allowed := by
  obtain ⟨trapResult, s₁, htrap, h⟩ := bind_iff.mp h
  cases trapResult with
  | none => exact Or.inl ⟨s₁, htrap, h⟩
  | some v => exact Or.inr ⟨v, s₁, htrap, hallowed v s₁ htrap h⟩

variable [DecidableEq Object]

theorem getPrototype_outcome {proto : Option Object} (h : Returns (getPrototype realm) s proto s')
    : Outcome realm (callTrap realm names.getPrototypeOf (pure [])) (GetPrototype realm) s proto s' fun target =>
        target.extensible = false → proto = target.proto := by
  rw [getPrototype] at h
  apply outcome_of_trap h
  intro handlerProto s₁ htrap h hextensible
  simp [and_assoc, hextensible] at h
  rw [← h.right.right.left, h.right.left]

variable {result : ObjectOpResult}

theorem setPrototype_outcome {proto : Option Object}
    (h : Returns (setPrototype realm proto) s result s')
    : Outcome realm (callTrap realm names.setPrototypeOf (pure [.objectOrNull proto])) (realm.targetSetPrototype proto)
        s result s' fun target => result = .succeed → target.extensible = false → proto = target.proto := by
  rw [setPrototype] at h
  apply outcome_of_trap h
  intro hval s₁ htrap h hsucceed hextensible
  simp [and_assoc, hextensible, hsucceed] at h
  exact h.right.left

theorem preventExtensions_outcome (h : Returns (preventExtensions realm) s result s')
    : Outcome realm (callTrap realm names.preventExtensions (pure [])) realm.targetPreventExtensions s result s'
        fun target => result = .succeed → target.extensible = false := by
  rw [preventExtensions] at h
  apply outcome_of_trap h
  intro trapResult s₁ htrap h hsucceed
  simp [and_assoc, hsucceed] at h
  exact h.right.left

theorem isExtensible_outcome {b : Bool} (h : Returns (isExtensible realm) s b s')
    : Outcome realm (callTrap realm names.isExtensible (pure [])) (IsExtensible realm) s b s'
        fun target => b = target.extensible := by
  rw [isExtensible] at h
  apply outcome_of_trap h
  intro trapResult s₁ htrap h
  simp [and_assoc] at h
  exact h.right.left.symm.trans h.left.symm

theorem delete_outcome (h : Returns (delete_ realm id) s result s')
    : Outcome realm (callTrap realm names.deleteProperty (pure [IdToStringOrSymbol id])) (realm.targetDeleteProperty id)
        s result s' fun target => result = .succeed → MayBeAbsent target id := by
  rw [delete_] at h
  apply outcome_of_trap h
  intro trapResult s₁ htrap h hsucceed
  apply mayBeAbsent_of_checks
  simp [and_assoc, hsucceed] at h
  exact h.right.imp And.left fun hchecks => ⟨hchecks.right.left, hchecks.right.right.left⟩

theorem has_outcome {b : Bool} (h : Returns (has realm id) s b s')
    : Outcome realm (callTrap realm names.has (pure [IdToStringOrSymbol id])) (realm.targetHasProperty id) s b s'
        fun target => b = false → MayBeAbsent target id := by
  rw [has] at h
  apply outcome_of_trap h
  intro trapResult s₁ htrap h habsent
  apply mayBeAbsent_of_checks
  simp [and_assoc, habsent] at h
  exact h.right.imp And.left fun hchecks => ⟨hchecks.right.left, hchecks.right.right.left⟩

theorem get_outcome {receiver v : Value Object} (h : Returns (get realm receiver id) s v s')
    : Outcome realm (callTrap realm names.get (pure [IdToStringOrSymbol id, receiver]))
        (realm.targetGetProperty receiver id) s v s' fun target =>
          (∀ value enumerable, target.getOwnProperty id = some (.data value false enumerable false) → v = value)
          ∧ ∀ setter enumerable, target.getOwnProperty id = some (.accessor none setter enumerable false)
            → v = .undefined := by
  rw [get] at h
  apply outcome_of_trap h
  intro trapResult s₁ htrap h
  refine ⟨fun value enumerable hproperty => ?_, fun setter enumerable hproperty => ?_⟩
  . simp [and_assoc, ownDescriptor_eq hproperty] at h
    obtain ⟨hvalue, -, heq, -⟩ := h
    rw [← heq]
    exact hvalue nofun rfl rfl rfl
  simp [and_assoc, ownDescriptor_eq hproperty] at h
  obtain ⟨-, hundefined, heq, -⟩ := h
  rw [← heq]
  exact hundefined nofun rfl rfl rfl

theorem set_outcome {v receiver : Value Object}
    (h : Returns (set realm id v receiver) s result s')
    : Outcome realm (callTrap realm names.set (pure [IdToStringOrSymbol id, v, receiver]))
        (realm.targetSetProperty id v receiver) s result s' fun target => result = .succeed →
          (∀ value enumerable, target.getOwnProperty id = some (.data value false enumerable false) → v = value)
          ∧ ∀ getter enumerable, target.getOwnProperty id ≠ some (.accessor getter none enumerable false) := by
  rw [set] at h
  apply outcome_of_trap h
  intro trapResult s₁ htrap h hsucceed
  refine ⟨fun value enumerable hproperty => ?_, fun getter enumerable hproperty => ?_⟩
  . simp [and_assoc, ownDescriptor_eq hproperty, hsucceed] at h
    exact h.right.left nofun rfl rfl rfl
  . simp [and_assoc, ownDescriptor_eq hproperty, hsucceed] at h
    exact h.right.right.left nofun rfl rfl rfl

def ownKeysTrap (realm : Realm State Object) : RealmM State Object (Option (Value Object)) := do
  match ← callTrap realm names.ownKeys (pure []) with
  | none => return none
  | some v =>
    let _ ← CreateFilteredListFromArrayLike realm v
    return some v

theorem ownPropertyKeys_outcome {props : List PropertyKey} (h : Returns (ownPropertyKeys realm) s props s')
    : Outcome realm (ownKeysTrap realm) (GetPropertyKeys realm) s props s' fun target =>
        props.Nodup ∧ (∀ id property, (id, property) ∈ target.properties → property.configurable = false → id ∈ props)
        ∧ (target.extensible = false → ∀ id, id ∈ props ↔ id ∈ target.keys) := by
  rw [ownPropertyKeys, bind_iff] at h
  obtain ⟨trap, s₁, htrap, h⟩ := h
  cases trap with
  | none =>
    refine Or.inl ⟨s₁, ?_, h⟩
    rw [ownKeysTrap, bind_iff]
    exact ⟨none, s₁, htrap, pure_iff.mpr ⟨rfl, rfl⟩⟩
  | some trapResultArray =>
    dsimp only at h
    rw [bind_iff] at h
    obtain ⟨trapResult, s₂, hlist, h⟩ := h
    rw [bind_iff] at h
    obtain ⟨uncheckedResultKeys, s₃, hunchecked, h⟩ := h
    obtain ⟨rfl, hnodup, rfl⟩ := checkDuplicates_returns hunchecked nodup_nil
    rw [bind_iff] at h
    obtain ⟨extensibleTarget, s₃, hextensible, h⟩ := h
    obtain ⟨rfl, rfl⟩ := returns_IsExtensible.mp hextensible
    rw [bind_iff] at h
    obtain ⟨targetKeys, s₃, hkeys, h⟩ := h
    obtain ⟨rfl, rfl⟩ := returns_GetPropertyKeys.mp hkeys
    rw [bind_iff] at h
    obtain ⟨descs, s₃, hdescs, h⟩ := h
    obtain ⟨rfl, rfl⟩ := mapM_GetOwnPropertyDescriptor hdescs
    refine Or.inr ⟨trapResultArray, s₂, ?_, ?_⟩
    . rw [ownKeysTrap, bind_iff]
      refine ⟨some trapResultArray, s₁, htrap, ?_⟩
      dsimp only
      rw [bind_iff]
      exact ⟨trapResult, s₂, hlist, pure_iff.mpr ⟨rfl, rfl⟩⟩
    rw [append_nil, nodup_reverse] at hnodup
    simp only [append_nil, partition_eq_filter_filter] at h
    rw [ite_iff] at h
    rcases h with ⟨hnone, h⟩ | ⟨-, h⟩
    . obtain ⟨rfl, -⟩ := pure_iff.mp h
      rw [Bool.and_eq_true, List.isEmpty_iff] at hnone
      refine ⟨hnodup, fun id property hmem hproperty => ?_, fun hextensible => ?_⟩
      . have hin := mem_partition.mpr (mem_nonconfigurable hmem hproperty)
        exact nomatch (congrArg (id ∈ ·) hnone.right).mp hin
      . rw [hextensible] at hnone
        exact nomatch hnone.left
    rw [bind_iff] at h
    obtain ⟨left, s₃, hleft, h⟩ := h
    obtain ⟨rfl, hnodup', hnonconfigurable, hleft⟩ := removeKeys_returns hleft (nodup_reverse.mpr hnodup)
    have hin {id : PropertyKey} {property : Property Object} (hmem : (id, property) ∈ (realm.target s₂).properties)
        (hproperty : property.configurable = false) : id ∈ trapResult :=
      mem_reverse.mp (hnonconfigurable id (mem_partition.mpr (mem_nonconfigurable hmem hproperty)))
    rw [ite_iff] at h
    rcases h with ⟨hextensible, h⟩ | ⟨-, h⟩
    . obtain ⟨rfl, -⟩ := pure_iff.mp h
      refine ⟨hnodup, fun id property => hin, fun hnot => ?_⟩
      rw [hextensible] at hnot
      exact nomatch hnot
    rw [bind_iff] at h
    obtain ⟨left', s₃, hleft', h⟩ := h
    obtain ⟨rfl, -, hconfigurable, hleft'⟩ := removeKeys_returns hleft' hnodup'
    cases left' with
    | cons id rest => exact (returns_Throw.mp h).elim
    | nil =>
      obtain ⟨rfl, -⟩ := pure_iff.mp h
      refine ⟨hnodup, fun id property => hin, fun _ id => ⟨fun hid => ?_, fun hid => ?_⟩⟩
      . by_contra hnot
        refine absurd ((hleft' id).mpr ⟨(hleft id).mpr ⟨mem_reverse.mpr hid, fun hmem => ?_⟩, fun hmem => ?_⟩)
          not_mem_nil
        . exact hnot (mem_partition (p := isNonconfigurable) (d := ownDescriptor realm s₂) |>.mp hmem).left
        . exact hnot (mem_partition (p := (!isNonconfigurable ·)) (d := ownDescriptor realm s₂) |>.mp hmem).left
      by_cases hproperty : isNonconfigurable (ownDescriptor realm s₂ id) = true
      . exact mem_reverse.mp (hnonconfigurable id (mem_partition.mpr ⟨hid, hproperty⟩))
      have hmem := hconfigurable id (mem_partition (p := (!isNonconfigurable ·))
        (d := ownDescriptor realm s₂) |>.mpr ⟨hid, by simpa using hproperty⟩)
      exact mem_reverse.mp ((hleft id).mp hmem).left

section Define

variable {desc : PropertyDescriptor Object}

def definePropertyTrap (realm : Realm State Object) (id : PropertyKey) (desc : PropertyDescriptor Object)
    : RealmM State Object (Option (Value Object)) :=
  callTrap realm names.defineProperty do
    return [IdToStringOrSymbol id, .object (← realm.fromPropertyDescriptorToObject desc)]

theorem defineProperty_outcome (hvalid : desc.Valid)
    (hdefined : ∀ v s₁ property, Returns (definePropertyTrap realm id desc) s (some v) s₁
      → ToBoolean realm v = true → (realm.target s₁).getOwnProperty id = some property
      → ¬UndefinedOfOtherKind desc property) (h : Returns (defineProperty realm id desc) s result s')
    : Outcome realm (definePropertyTrap realm id desc) (realm.targetDefineProperty id desc) s result s' fun target =>
        result = .succeed → ValidateAndApplyPropertyDescriptor target.extensible desc.record
              ((target.getOwnProperty id).map Property.record) = true
            ∧ (desc.record.configurable = some false → ∃ property, target.getOwnProperty id = some property
              ∧ property.configurable = false)
            ∧ ∀ property, target.getOwnProperty id = some property → property.configurable = false
              → property.record.writable = some true → desc.record.writable ≠ some false := by
  rw [defineProperty] at h
  apply outcome_of_trap h
  intro trapResult s₁ htrap h hsucceed
  subst hsucceed
  simp [and_assoc] at h
  obtain ⟨hboolean, h⟩ := h
  rw [ownDescriptor_obj_eq_none] at h
  cases hproperty : (realm.target s₁).getOwnProperty id with
  | none =>
    obtain ⟨-, hextensible, hconfigurable, -⟩ := h.resolve_right fun hfound => hfound.left hproperty
    refine ⟨hextensible, fun hfalse => ?_, fun _ heq => by cases heq⟩
    rw [record_configurable_eq_false] at hfalse
    rw [hconfigurable hfalse.left] at hfalse
    cases hfalse.right
  | some property =>
    obtain ⟨-, h⟩ := h.resolve_left fun hnone => Option.some_ne_none _ (hproperty.symm.trans hnone.left)
    rw [ownDescriptor_eq hproperty] at h
    cases hcompatible : IsCompatiblePropertyDescriptor (realm.target s₁).extensible desc
        (property.toDescriptor realm.targetObject) with
    | some details => simp [hcompatible] at h
    | none =>
      simp only [hcompatible, ite_iff, returns_Throw, and_false, false_or, configurable_toDescriptor] at h
      obtain ⟨hconfigurable, hwritable, -⟩ := h
      have hvalidate := ((isCompatible_some_iff hvalid).mpr
        (hdefined trapResult s₁ property htrap hboolean hproperty)).mp hcompatible
      refine ⟨hvalidate, fun hfalse => ⟨property, rfl, ?_⟩, fun property' heq hfalse hold hnew => ?_⟩
      . rw [record_configurable_eq_false] at hfalse
        simpa [hfalse.left, hfalse.right] using hconfigurable
      cases heq
      rw [record_writable_eq_false] at hnew
      cases property with
      | data value w e c =>
        obtain rfl : w = true := Option.some.inj hold
        obtain rfl : c = false := by simpa [Property.configurable, Property.record] using hfalse
        exact hwritable ⟨rfl, hfalse, rfl, hnew.left, hnew.right⟩
      | accessor getter setter e c => cases hold

-- The slip: the trap may say that the property has become one of the other kind.
theorem defineProperty_of_undefined {v : Value Object} {s₁ : State} (hvalid : desc.Valid)
    (htrap : Returns (definePropertyTrap realm id desc) s (some v) s₁) (hboolean : ToBoolean realm v = true)
    (hproperty : (realm.target s₁).getOwnProperty id = some property) (hundefined : UndefinedOfOtherKind desc property)
    : Returns (defineProperty realm id desc) s .succeed s₁
      ∧ ¬ValidateAndApplyPropertyDescriptor (realm.target s₁).extensible desc.record
          (((realm.target s₁).getOwnProperty id).map Property.record) = true := by
  have hsame : SameFields desc (property.toDescriptor realm.targetObject) = true :=
    sameFields_of_undefined hvalid hundefined
  constructor
  . rw [defineProperty, bind_iff]
    refine ⟨some v, s₁, htrap, ?_⟩
    simp [and_assoc, hboolean, ownDescriptor_eq hproperty, toDescriptor_obj, isCompatible_of_sameFields hsame,
      configurable_toDescriptor, hundefined.configurable, hundefined.hasWritable]
  . rw [hproperty, Option.map_some, validate_of_sameFields hvalid hsame, not_not]
    exact hundefined

end Define

section GetOwn

variable {desc : PropertyDescriptor Object}

def getOwnPropertyDescriptorTrap (realm : Realm State Object) (id : PropertyKey)
    : RealmM State Object (Option (Value Object)) :=
  callTrap realm names.getOwnPropertyDescriptor (pure [IdToStringOrSymbol id])

theorem getOwnPropertyDescriptor_outcome {proxy : Object}
    (hreported : ∀ o s₁ desc s₂ property, Returns (getOwnPropertyDescriptorTrap realm id) s (some (.object o)) s₁
      → Returns (ToPropertyDescriptor realm (.object o) true) s₁ desc s₂
      → (realm.target s₁).getOwnProperty id = some property
      → ¬UndefinedOfOtherKind (CompletePropertyDescriptor desc) property)
    (h : Returns (getOwnPropertyDescriptor realm proxy id) s desc s')
    : Outcome realm (getOwnPropertyDescriptorTrap realm id) (GetOwnPropertyDescriptor realm id) s desc s' fun target =>
        if desc.obj = none then
          MayBeAbsent target id
        else
          desc.Complete ∧ ValidateAndApplyPropertyDescriptor target.extensible desc.record
                ((target.getOwnProperty id).map Property.record) = true
            ∧ (desc.configurable = false → ∃ property, target.getOwnProperty id = some property
              ∧ property.configurable = false
              ∧ (desc.record.writable = some false → property.record.writable = some false)) := by
  rw [getOwnPropertyDescriptor] at h
  apply outcome_of_trap h
  intro trapResult s₁ htrap h
  cases trapResult with
  | undefined =>
    simp [and_assoc] at h
    have hempty : desc = .empty := by
      rcases h with h | h
      . exact h.right.left.symm
      . exact h.right.right.right.left.symm
    have hobj : desc.obj = none := by rw [hempty]; rfl
    simp only [hobj, ↓reduceIte]
    exact mayBeAbsent_of_checks (h.imp And.left fun hchecks => ⟨hchecks.right.left, hchecks.right.right.left⟩)
  | object o =>
    simp only [bind_iff, returns_GetOwnPropertyDescriptor, returns_IsExtensible] at h
    obtain ⟨_, _, ⟨rfl, rfl⟩, _, _, ⟨rfl, rfl⟩, reported, s₂, hreport, h⟩ := h
    have hcomplete := CompletePropertyDescriptor_complete (ToPropertyDescriptor_valid hreport)
    cases hcompatible : IsCompatiblePropertyDescriptor (realm.target s₁).extensible
        (CompletePropertyDescriptor reported) (ownDescriptor realm s₁ id) with
    | some details => simp [hcompatible] at h
    | none =>
      simp [hcompatible] at h
      obtain ⟨hfound, hconfigurable, hwritable, rfl, rfl⟩ := h
      simp only [reduceCtorEq, ↓reduceIte]
      refine ⟨hcomplete.setObj, ?_⟩
      cases hproperty : (realm.target s₁).getOwnProperty id with
      | none =>
        have hobj := ownDescriptor_obj_eq_none.mpr hproperty
        rw [ownDescriptor, hproperty] at hcompatible
        exact ⟨isCompatible_none_iff.mp hcompatible, fun hfalse => absurd hobj (hfound hfalse)⟩
      | some property =>
        rw [ownDescriptor_eq hproperty] at hcompatible hconfigurable hwritable
        have hvalidate := ((isCompatible_some_iff hcomplete.toValid).mpr
          (hreported o s₁ reported s₂ property htrap hreport hproperty)).mp hcompatible
        refine ⟨hvalidate, fun hfalse => ⟨property, rfl, ?_, fun hnew => ?_⟩⟩
        . rw [← configurable_toDescriptor (o := realm.targetObject)]
          exact hconfigurable hfalse
        obtain ⟨hnew, hnonwritable⟩ := record_writable_eq_false.mp hnew
        have hold := hwritable hfalse hnew hnonwritable
        have hkind : (CompletePropertyDescriptor reported).record.IsDataDescriptor = true := by
          have hnew : (CompletePropertyDescriptor reported).hasWritable = true := hnew
          simp [IsDataDescriptor, PropertyDescriptor.record, hnew]
        have hproperty' : property.record.configurable = some false := by
          rw [← configurable_record, ← configurable_toDescriptor (o := realm.targetObject), hconfigurable hfalse]
        cases property with
        | data value w e c =>
          simp only [Property.toDescriptor, PropertyDescriptor.writable, Bool.not_not] at hold
          simp [Property.record, hold]
        | accessor getter setter e c => cases isDataDescriptor_of_validate hvalidate hproperty' hkind
  | _ => exact (returns_Throw.mp h).elim

theorem getOwnPropertyDescriptor_of_undefined {proxy o : Object} {s₁ s₂ : State}
    (htrap : Returns (getOwnPropertyDescriptorTrap realm id) s (some (.object o)) s₁)
    (hreport : Returns (ToPropertyDescriptor realm (.object o) true) s₁ desc s₂)
    (hproperty : (realm.target s₁).getOwnProperty id = some property)
    (hundefined : UndefinedOfOtherKind (CompletePropertyDescriptor desc) property)
    : Returns (getOwnPropertyDescriptor realm proxy id) s { CompletePropertyDescriptor desc with obj := some proxy } s₂
      ∧ ¬ValidateAndApplyPropertyDescriptor (realm.target s₁).extensible (CompletePropertyDescriptor desc).record
          (((realm.target s₁).getOwnProperty id).map Property.record) = true := by
  have hcomplete := CompletePropertyDescriptor_complete (ToPropertyDescriptor_valid hreport)
  have hsame : SameFields (CompletePropertyDescriptor desc) (property.toDescriptor realm.targetObject) = true :=
    sameFields_of_undefined hcomplete.toValid hundefined
  constructor
  . rw [getOwnPropertyDescriptor, bind_iff]
    refine ⟨some (.object o), s₁, htrap, ?_⟩
    simp only [bind_iff, returns_GetOwnPropertyDescriptor, returns_IsExtensible]
    refine ⟨_, _, ⟨rfl, rfl⟩, _, _, ⟨rfl, rfl⟩, desc, s₂, hreport, ?_⟩
    simp [ownDescriptor_eq hproperty, toDescriptor_obj, isCompatible_of_sameFields hsame, configurable_toDescriptor,
      hundefined.configurable, hundefined.hasWritable]
  . rw [hproperty, Option.map_some, validate_of_sameFields hcomplete.toValid hsame, not_not]
    exact hundefined

end GetOwn

variable {State Object : Type} [DecidableEq Object]

def trapOf (realm : Realm State Object) : Request Object → RealmM State Object (Option (Value Object))
  | .getPrototype => callTrap realm names.getPrototypeOf (pure [])
  | .setPrototype proto => callTrap realm names.setPrototypeOf (pure [.objectOrNull proto])
  | .preventExtensions => callTrap realm names.preventExtensions (pure [])
  | .isExtensible => callTrap realm names.isExtensible (pure [])
  | .getOwnPropertyDescriptor id => getOwnPropertyDescriptorTrap realm id
  | .defineProperty id desc => definePropertyTrap realm id desc
  | .ownPropertyKeys => ownKeysTrap realm
  | .delete_ id => callTrap realm names.deleteProperty (pure [IdToStringOrSymbol id])
  | .has id => callTrap realm names.has (pure [IdToStringOrSymbol id])
  | .get receiver id => callTrap realm names.get (pure [IdToStringOrSymbol id, receiver])
  | .set id v receiver => callTrap realm names.set (pure [IdToStringOrSymbol id, v, receiver])

def ownOf (realm : Realm State Object) : Request Object → RealmM State Object (Answer Object)
  | .getPrototype => .prototype <$> GetPrototype realm
  | .setPrototype proto => .result <$> realm.targetSetPrototype proto
  | .preventExtensions => .result <$> realm.targetPreventExtensions
  | .isExtensible => .boolean <$> IsExtensible realm
  | .getOwnPropertyDescriptor id => .descriptor <$> GetOwnPropertyDescriptor realm id
  | .defineProperty id desc => .result <$> realm.targetDefineProperty id desc
  | .ownPropertyKeys => .keys <$> GetPropertyKeys realm
  | .delete_ id => .result <$> realm.targetDeleteProperty id
  | .has id => .boolean <$> realm.targetHasProperty id
  | .get receiver id => .value <$> realm.targetGetProperty receiver id
  | .set id v receiver => .result <$> realm.targetSetProperty id v receiver

def perform (realm : Realm State Object) (proxy : Object) : Request Object → RealmM State Object (Answer Object)
  | .getPrototype => .prototype <$> getPrototype realm
  | .setPrototype proto => .result <$> setPrototype realm proto
  | .preventExtensions => .result <$> preventExtensions realm
  | .isExtensible => .boolean <$> isExtensible realm
  | .getOwnPropertyDescriptor id => .descriptor <$> getOwnPropertyDescriptor realm proxy id
  | .defineProperty id desc => .result <$> defineProperty realm id desc
  | .ownPropertyKeys => .keys <$> ownPropertyKeys realm
  | .delete_ id => .result <$> delete_ realm id
  | .has id => .boolean <$> has realm id
  | .get receiver id => .value <$> get realm receiver id
  | .set id v receiver => .result <$> set realm id v receiver

def Request.Valid : Request Object → Prop
  | .defineProperty _ desc => desc.Valid
  | _ => True

def Respects (realm : Realm State Object) (proxy : Object) (request : Request Object) (s : State) : Prop :=
  ∀ answer s', Returns (perform realm proxy request) s answer s'
    → Outcome realm (trapOf realm request) (ownOf realm request) s answer s' fun target => Allows target request answer

def TurnsKind (realm : Realm State Object) (request : Request Object) (s : State) : Prop :=
  match request with
  | .getOwnPropertyDescriptor id => ∃ o s₁ desc s₂ property,
    Returns (getOwnPropertyDescriptorTrap realm id) s (some (.object o)) s₁
    ∧ Returns (ToPropertyDescriptor realm (.object o) true) s₁ desc s₂
    ∧ (realm.target s₁).getOwnProperty id = some property
    ∧ UndefinedOfOtherKind (CompletePropertyDescriptor desc) property
  | .defineProperty id desc => ∃ v s₁ property,
    Returns (definePropertyTrap realm id desc) s (some v) s₁
    ∧ ToBoolean realm v = true ∧ (realm.target s₁).getOwnProperty id = some property
    ∧ UndefinedOfOtherKind desc property
  | _ => False

variable {realm : Realm State Object} {proxy : Object} {s : State}

theorem respects_of_not_turnsKind {request : Request Object} (hvalid : request.Valid) (h : ¬TurnsKind realm request s)
    : Respects realm proxy request s := by
  intro answer s' hreturns
  cases request <;> obtain ⟨a, hmethod, rfl⟩ := map_iff.mp hreturns
  case getPrototype => exact (getPrototype_outcome hmethod).map _
  case setPrototype => exact (setPrototype_outcome hmethod).map _
  case preventExtensions => exact (preventExtensions_outcome hmethod).map _
  case isExtensible => exact (isExtensible_outcome hmethod).map _
  case getOwnPropertyDescriptor =>
    refine (getOwnPropertyDescriptor_outcome ?_ hmethod).map _
    exact fun o s₁ desc s₂ property htrap hreport hproperty hundefined =>
      h ⟨o, s₁, desc, s₂, property, htrap, hreport, hproperty, hundefined⟩
  case defineProperty =>
    refine (defineProperty_outcome hvalid ?_ hmethod).map _
    exact fun v s₁ property htrap hboolean hproperty hundefined =>
      h ⟨v, s₁, property, htrap, hboolean, hproperty, hundefined⟩
  case ownPropertyKeys => exact (ownPropertyKeys_outcome hmethod).map _
  case delete_ => exact (delete_outcome hmethod).map _
  case has => exact (has_outcome hmethod).map _
  case get => exact (get_outcome hmethod).map _
  case set => exact (set_outcome hmethod).map _

theorem not_turnsKind_of_respects {request : Request Object} (hvalid : request.Valid)
    (h : Respects realm proxy request s)
    : ¬TurnsKind realm request s := by
  intro hturns
  cases request with
  | getOwnPropertyDescriptor id =>
    obtain ⟨o, s₁, desc, s₂, property, htrap, hreport, hproperty, hundefined⟩ := hturns
    obtain ⟨hreturns, hinvalid⟩ := getOwnPropertyDescriptor_of_undefined htrap hreport hproperty hundefined
    have hallowed := (h _ s₂ (map_iff.mpr ⟨_, hreturns, rfl⟩)).allowed htrap
    simp only [Allows, reduceCtorEq, ↓reduceIte] at hallowed
    exact hinvalid hallowed.right.left
  | defineProperty id desc =>
    obtain ⟨v, s₁, property, htrap, hboolean, hproperty, hundefined⟩ := hturns
    obtain ⟨hreturns, hinvalid⟩ := defineProperty_of_undefined hvalid htrap hboolean hproperty hundefined
    have hallowed := (h _ s₁ (map_iff.mpr ⟨_, hreturns, rfl⟩)).allowed htrap
    exact hinvalid (hallowed rfl).left
  | _ => exact hturns

-- A frozen property, and a handler whose traps answer that it is an accessor without a getter: the objects are the
-- target, the handler, the trap and the descriptor.
def frozen : OrdinaryObject (Fin 4) where
  properties := [(names.named "x", .data (.boolean true) false false false)]
  extensible := false
  proto := none
  nodup := by decide

def lyingRealm : Realm Unit (Fin 4) where
  handlerObject _ := some 1
  targetObject := 0
  target _ := frozen
  isCallable o := o = 2
  emulatesUndefined _ := false
  hasProperty o id := return o = 3 && id = names.get
  getProperty o _ := return if o = 1 then .object 2 else .undefined
  getElement _ _ := return .undefined
  getLengthProperty _ := return 0
  call _ _ _ := return .object 3
  fromPropertyDescriptorToObject _ := return 3
  targetSetPrototype _ := return .succeed
  targetPreventExtensions := return .succeed
  targetDefineProperty _ _ := return .succeed
  targetDeleteProperty _ := return .succeed
  targetHasProperty _ := return true
  targetGetProperty _ _ := return .undefined
  targetSetProperty _ _ _ := return .succeed

def getUndefined : PropertyDescriptor (Fin 4) where
  obj := none
  attrs := { PropertyAttributes.empty with getter := true, ignoreEnumerate := true, ignorePermanent := true }
  getter := none
  setter := none
  value := .undefined

-- The check of a descriptor is the validation of the specification, and the methods keep the invariants, exactly when
-- no undefined field of the other kind is involved.
theorem internalMethods_respect_iff (proxy : Object) {request : Request Object} (hrequest : request.Valid)
    {desc : PropertyDescriptor Object} (hdesc : desc.Valid)
    : (∀ (extensible : Bool) (property : Option (Property Object)), ((IsCompatiblePropertyDescriptor extensible desc
              ((property.map (Property.toDescriptor realm.targetObject)).getD .empty) = none
            ↔ ValidateAndApplyPropertyDescriptor extensible desc.record (property.map Property.record) = true)
          ↔ ∀ found, property = some found → ¬UndefinedOfOtherKind desc found))
      ∧ ∀ s, Respects realm proxy request s ↔ ¬TurnsKind realm request s := by
  constructor
  . intro extensible property
    cases property with
    | none => exact iff_of_true isCompatible_none_iff nofun
    | some found =>
      simp only [Option.map_some, Option.getD_some, Option.some.injEq, forall_eq']
      exact isCompatible_some_iff hdesc
  . exact fun s => ⟨not_turnsKind_of_respects hrequest, respects_of_not_turnsKind hrequest⟩

def unchanged : PropertyDescriptor (Fin 4) where
  obj := none
  attrs := { PropertyAttributes.empty with readonly := true, ignoreEnumerate := true, ignorePermanent := true }
  getter := none
  setter := none
  value := .boolean true

theorem internalMethods_respect_defineProperty
    : Returns (defineProperty lyingRealm (names.named "x") unchanged) () .succeed ()
      ∧ Respects lyingRealm 1 (.defineProperty (names.named "x") unchanged) () := by
  have hvalid : unchanged.Valid := by constructor <;> decide
  have hrequest : Request.Valid (.defineProperty (names.named "x") unchanged) := hvalid
  refine ⟨rfl, ((internalMethods_respect_iff 1 hrequest hvalid).right ()).mpr ?_⟩
  rintro ⟨_, _, property, _, _, hproperty, hundefined⟩
  obtain rfl := Option.some.inj (hproperty.symm.trans rfl)
  exact absurd hundefined.2.1 (by decide)

theorem getOwnPropertyDescriptor_frozen
    : getUndefined.Valid ∧ IsCompatiblePropertyDescriptor false getUndefined
          ((Property.data (.boolean true) false false false).toDescriptor 0) = none
      ∧ ValidateAndApplyPropertyDescriptor false getUndefined.record
          (some (.data (.boolean true) false false false : Property (Fin 4)).record) = false
      ∧ Returns (getOwnPropertyDescriptor lyingRealm 1 (names.named "x")) ()
          { CompletePropertyDescriptor getUndefined with obj := some 1 } ()
      ∧ ¬Respects lyingRealm 1 (.getOwnPropertyDescriptor (names.named "x")) ()
      ∧ ¬Respects lyingRealm 1 (.defineProperty (names.named "x") getUndefined) () := by
  have hvalid : getUndefined.Valid := by constructor <;> decide
  have hrequest : Request.Valid (.getOwnPropertyDescriptor (names.named "x") : Request (Fin 4)) := trivial
  have hrequest' : Request.Valid (.defineProperty (names.named "x") getUndefined) := hvalid
  refine ⟨hvalid, by decide, by decide, rfl, fun h => ?_, fun h => ?_⟩
  . exact not_turnsKind_of_respects hrequest h
      ⟨3, (), getUndefined, (), .data (.boolean true) false false false, rfl, rfl, rfl,
        rfl, rfl, rfl, rfl, fun _ => rfl, fun _ => rfl⟩
  . exact not_turnsKind_of_respects hrequest' h ⟨.object 3, (), .data (.boolean true) false false false, rfl, rfl, rfl,
        rfl, rfl, rfl, rfl, nofun, nofun⟩

end SpiderMonkey.ScriptedProxyHandler
