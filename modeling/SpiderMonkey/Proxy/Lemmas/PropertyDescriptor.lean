import Mathlib.Tactic.ByContra
import SpiderMonkey.Proxy.Spec

/-!
This module contains how the bits of a descriptor and the check of a descriptor against a property compare with the
records of the specification and their validation.
-/

namespace SpiderMonkey

open PropertyRecord

variable {Object : Type}

namespace PropertyRecord

theorem agrees_ite {Field : Type} [DecidableEq Field] {field current : Field}
    : agrees (if p then some field else none) (some current) = (!p || field = current) := by
  cases p <;> simp [agrees]

theorem agrees_ite_none {Field : Type} [DecidableEq Field] {p : Bool} {field : Field}
    : agrees (if p then some field else none) none = !p := by
  cases p <;> simp [agrees]

theorem agrees_isSome {Field : Type} [DecidableEq Field] {field current : Option Field}
    (h : agrees field current = true) (hfield : field.isSome = true)
    : current.isSome = true := by
  cases field with
  | none => exact nomatch hfield
  | some x =>
    simp only [agrees, Option.isNone_some, Bool.false_or, decide_eq_true_eq] at h
    rw [← h]
    exact hfield

variable [DecidableEq Object]

def ValidateRest (Desc current : PropertyRecord Object) : Bool :=
  if current.configurable = some false && Desc.configurable = some true then
    false
  else if current.configurable = some false && !agrees Desc.enumerable current.enumerable then
    false
  else if Desc.IsGenericDescriptor then
    true
  else if current.IsDataDescriptor ≠ Desc.IsDataDescriptor then
    current.configurable ≠ some false
  else if current.IsDataDescriptor then
    if current.configurable = some false && current.writable = some false then
      if Desc.writable = some true then
        false
      else
        agrees Desc.value current.value
    else
      true
  else if current.configurable = some false then
    agrees Desc.set current.set && agrees Desc.get current.get
  else
    true

end PropertyRecord

namespace PropertyDescriptor

variable {desc : PropertyDescriptor Object}

theorem isAccessorDescriptor_record
    : desc.record.IsAccessorDescriptor = desc.isAccessorDescriptor := by
  rw [IsAccessorDescriptor, isAccessorDescriptor, record, hasGetterObject, hasSetterObject]
  cases desc.attrs.getter <;> cases desc.attrs.setter <;> rfl

theorem isDataDescriptor_record
    : desc.record.IsDataDescriptor = desc.isDataDescriptor := by
  rw [IsDataDescriptor, isDataDescriptor, isGenericDescriptor, record, hasValue, hasWritable, isAccessorDescriptor]
  cases desc.attrs.getter <;> cases desc.attrs.setter <;> cases desc.attrs.ignoreReadonly
    <;> cases desc.attrs.ignoreValue <;> rfl

theorem isGenericDescriptor_record
    : desc.record.IsGenericDescriptor = desc.isGenericDescriptor := by
  rw [IsGenericDescriptor, isAccessorDescriptor_record, isDataDescriptor_record, isDataDescriptor,
    isGenericDescriptor, isAccessorDescriptor]
  cases desc.attrs.getter <;> cases desc.attrs.setter <;> simp

theorem record_eq_empty_iff
    : desc.record = ⟨none, none, none, none, none, none⟩
        ↔ (!desc.hasValue && !desc.hasWritable && !desc.hasGetterObject && !desc.hasSetterObject
          && !desc.hasEnumerable && !desc.hasConfigurable) = true := by
  simp only [record, PropertyRecord.mk.injEq, ite_eq_right_iff, reduceCtorEq, imp_false, Bool.not_eq_true,
    Bool.and_eq_true, Bool.not_eq_true', and_assoc]

theorem Complete.setObj {obj : Option Object} (h : desc.Complete)
    : ({ desc with obj } : PropertyDescriptor Object).Complete :=
  ⟨⟨h.enumerate, h.permanent, h.accessor, h.getter, h.setter, h.readonly, h.ignoreValue⟩,
    h.ignoreEnumerate, h.ignoreReadonly, h.ignorePermanent, h.ignoreValue_eq, h.getter_setter⟩

def completed (attrs : PropertyAttributes) : PropertyAttributes :=
  { attrs with
    readonly := attrs.ignoreReadonly || attrs.readonly
    permanent := attrs.ignorePermanent || attrs.permanent
    ignoreEnumerate := false
    ignoreReadonly := false
    ignorePermanent := false
    ignoreValue := false }

theorem complete_of_not_accessor (hkind : desc.isAccessorDescriptor = false)
    : CompletePropertyDescriptor desc = { desc with attrs := completed desc.attrs } := by
  have hkind' : (desc.isGenericDescriptor || desc.isDataDescriptor) = true := by
    rw [isDataDescriptor, hkind]
    simp
  rw [CompletePropertyDescriptor, if_pos hkind']
  simp only [hasWritable, hkind, hasConfigurable, completed]
  obtain ⟨obj, ⟨en, ro, pe, ge, se, ie, ir, ip, iv⟩, getter, setter, value⟩ := desc
  cases ir <;> cases ip <;> simp

theorem complete_of_accessor (h : desc.Valid) (hkind : desc.isAccessorDescriptor = true)
    : CompletePropertyDescriptor desc
        = { desc with attrs := { completed desc.attrs with getter := true, setter := true } } := by
  have hkind' : ¬(desc.isGenericDescriptor || desc.isDataDescriptor) = true := by
    rw [isDataDescriptor, hkind, isGenericDescriptor]
    simp only [isAccessorDescriptor, Bool.or_eq_true] at hkind
    rcases hkind with hkind | hkind <;> simp [hkind]
  obtain ⟨hreadonly, hignoreReadonly, hignoreValue, hvalue⟩ := h.accessor hkind
  have hgetter := h.getter
  have hsetter := h.setter
  rw [CompletePropertyDescriptor, if_neg hkind']
  simp only [hasGetterObject, hasSetterObject, hasConfigurable, completed]
  obtain ⟨obj, ⟨en, ro, pe, ge, se, ie, ir, ip, iv⟩, getter, setter, value⟩ := desc
  cases ge <;> cases se <;> cases ip <;> simp_all [setGetterObject, setSetterObject]

theorem CompletePropertyDescriptor_complete (h : desc.Valid)
    : (CompletePropertyDescriptor desc).Complete := by
  cases hkind : desc.isAccessorDescriptor with
  | false =>
    rw [complete_of_not_accessor hkind]
    rw [isAccessorDescriptor, Bool.or_eq_false_iff] at hkind
    refine ⟨⟨?_, ?_, ?_, ?_, ?_, ?_, ?_⟩, rfl, rfl, rfl, rfl, ?_⟩ <;> simp [completed, isAccessorDescriptor, hkind]
  | true =>
    rw [complete_of_accessor h hkind]
    obtain ⟨hreadonly, hignoreReadonly, hignoreValue, hvalue⟩ := h.accessor hkind
    refine ⟨⟨?_, ?_, ?_, ?_, ?_, ?_, ?_⟩, rfl, rfl, rfl, rfl, ?_⟩
      <;> simp [completed, isAccessorDescriptor, hreadonly, hignoreReadonly, hvalue]
end PropertyDescriptor

open PropertyDescriptor ScriptedProxyHandler

section IsCompatible

variable {desc : PropertyDescriptor Object} {property : Property Object} {extensible : Bool} {o : Object}

-- A descriptor that turns a non-configurable property into one of the other kind, while all the fields it has of
-- that kind are undefined.
def UndefinedOfOtherKind (desc : PropertyDescriptor Object) : Property Object → Prop
  | .data _ _ e c =>
    c = false ∧ desc.isAccessorDescriptor = true ∧ desc.getter = none ∧ desc.setter = none
      ∧ (desc.hasEnumerable = true → desc.enumerable = e) ∧ (desc.hasConfigurable = true → desc.configurable = false)
  | .accessor _ _ e c =>
    c = false ∧ desc.hasValue = true ∧ desc.hasWritable = false ∧ desc.value = .undefined
      ∧ (desc.hasEnumerable = true → desc.enumerable = e) ∧ (desc.hasConfigurable = true → desc.configurable = false)

theorem UndefinedOfOtherKind.configurable (h : UndefinedOfOtherKind desc property)
    : property.configurable = false := by
  cases property <;> simp [Property.configurable, Property.record, h.left]

theorem UndefinedOfOtherKind.hasWritable (h : UndefinedOfOtherKind desc property)
    : desc.hasWritable = false := by
  cases property with
  | data value w e c => rw [PropertyDescriptor.hasWritable, h.right.left, Bool.not_true, Bool.false_and]
  | accessor getter setter e c => exact h.right.right.left

theorem toDescriptor_obj
    : (property.toDescriptor o).obj = some o := by
  cases property <;> rfl

variable [DecidableEq Object]

def SameFields (desc current : PropertyDescriptor Object) : Bool :=
  (!desc.hasWritable || (current.hasWritable && desc.writable = current.writable))
    && (!desc.hasGetterObject || desc.getter = current.getter)
    && (!desc.hasSetterObject || desc.setter = current.setter)
    && (!desc.hasEnumerable || desc.enumerable = current.enumerable)
    && (!desc.hasConfigurable || desc.configurable = current.configurable)
    && (!desc.hasValue || desc.value = current.value)

def AgreesWith (Desc current : PropertyRecord Object) : Bool :=
  agrees Desc.value current.value && agrees Desc.writable current.writable && agrees Desc.get current.get
    && agrees Desc.set current.set && agrees Desc.enumerable current.enumerable
    && agrees Desc.configurable current.configurable

variable {current Desc : PropertyRecord Object}

theorem validate_iff
    : ValidateAndApplyPropertyDescriptor extensible Desc (some current) = true
        ↔ Desc = ⟨none, none, none, none, none, none⟩ ∨ AgreesWith Desc current = true
          ∨ ValidateRest Desc current = true := by
  rw [ValidateAndApplyPropertyDescriptor, ← ValidateRest, ← AgreesWith]
  split
  next hempty => simp [hempty]
  next hempty =>
    split
    next hagrees => simp [hagrees]
    next hagrees => simp [hempty, hagrees]

theorem isCompatible_rest (hempty : desc.record ≠ ⟨none, none, none, none, none, none⟩)
    (hsame : ¬SameFields desc (property.toDescriptor o) = true)
    : IsCompatiblePropertyDescriptor extensible desc (property.toDescriptor o) = none
        ↔ ValidateRest desc.record property.record = true := by
  rw [ne_eq, record_eq_empty_iff] at hempty
  rw [IsCompatiblePropertyDescriptor, if_neg hempty, ← SameFields, if_neg hsame, ValidateRest,
    isGenericDescriptor_record, isDataDescriptor_record]
  clear hempty hsame
  cases property with
  | data value writable enumerable configurable =>
    have hdata : ((Property.data value writable enumerable configurable).toDescriptor o).isDataDescriptor = true := rfl
    have hdata' : (Property.data value writable enumerable configurable).record.IsDataDescriptor = true := rfl
    rw [hdata, hdata']
    simp only [Property.toDescriptor, Property.record, PropertyDescriptor.record, PropertyAttributes.empty,
      PropertyDescriptor.empty, PropertyDescriptor.configurable, PropertyDescriptor.enumerable,
      PropertyDescriptor.writable, agrees_ite]
    cases configurable with
    | true => simp
    | false => cases writable <;> simp <;> grind
  | accessor getter setter enumerable configurable =>
    have hdata : ((Property.accessor getter setter enumerable configurable).toDescriptor o).isDataDescriptor = false :=
      rfl
    have hdata' : (Property.accessor getter setter enumerable configurable).record.IsDataDescriptor = false := rfl
    rw [hdata, hdata']
    simp only [Property.toDescriptor, Property.record, PropertyDescriptor.record, PropertyAttributes.empty,
      PropertyDescriptor.empty, PropertyDescriptor.configurable, PropertyDescriptor.enumerable,
      PropertyDescriptor.writable, agrees_ite]
    cases configurable with
    | true => simp
    | false =>
      simp
      grind

theorem validateRest_otherKind (hgeneric : Desc.IsGenericDescriptor = false)
    (hkind : current.IsDataDescriptor ≠ Desc.IsDataDescriptor)
    : ValidateRest Desc current = true ↔ current.configurable ≠ some false := by
  rw [ValidateRest]
  by_cases hconfigurable : current.configurable = some false
  . simp [hconfigurable, hgeneric, hkind]
  . simp [hconfigurable, hkind]

theorem isDataDescriptor_of_agreesWith (h : AgreesWith Desc current = true) (hkind : Desc.IsDataDescriptor = true)
    : current.IsDataDescriptor = true := by
  simp only [AgreesWith, Bool.and_eq_true] at h
  simp only [IsDataDescriptor, Bool.or_eq_true] at hkind ⊢
  exact hkind.imp (agrees_isSome h.1.1.1.1.1) (agrees_isSome h.1.1.1.1.2)

theorem isAccessorDescriptor_of_agreesWith (h : AgreesWith Desc current = true)
    (hkind : Desc.IsAccessorDescriptor = true)
    : current.IsAccessorDescriptor = true := by
  simp only [AgreesWith, Bool.and_eq_true] at h
  simp only [IsAccessorDescriptor, Bool.or_eq_true] at hkind ⊢
  exact hkind.imp (agrees_isSome h.1.1.1.2) (agrees_isSome h.1.1.2)

theorem sameFields_of_agreesWith (h : AgreesWith desc.record property.record = true)
    : SameFields desc (property.toDescriptor o) = true := by
  cases property <;> simp only [AgreesWith, record, Property.record, agrees_ite, agrees_ite_none] at h
    <;> simp only [SameFields, Property.toDescriptor, PropertyDescriptor.empty, PropertyAttributes.empty]
    <;> grind [hasWritable, isAccessorDescriptor, PropertyDescriptor.writable, PropertyDescriptor.enumerable,
      PropertyDescriptor.configurable]

section Data

variable {value : Value Object} {writable enumerable configurable : Bool}

theorem agreesWith_data (hkind : desc.isAccessorDescriptor = false)
    (h : SameFields desc ((Property.data value writable enumerable configurable).toDescriptor o) = true)
    : AgreesWith desc.record (Property.data value writable enumerable configurable).record = true := by
  simp only [AgreesWith, record, Property.record, agrees_ite, agrees_ite_none]
  simp only [SameFields, Property.toDescriptor, PropertyDescriptor.empty, PropertyAttributes.empty] at h
  grind [hasGetterObject, hasSetterObject, isAccessorDescriptor, PropertyDescriptor.writable,
    PropertyDescriptor.enumerable, PropertyDescriptor.configurable]

theorem undefined_data (hvalid : desc.Valid) (hkind : desc.isAccessorDescriptor = true)
    : UndefinedOfOtherKind desc (Property.data value writable enumerable configurable) ↔ configurable = false
          ∧ SameFields desc ((Property.data value writable enumerable configurable).toDescriptor o) = true := by
  have hgetter := hvalid.getter
  have hsetter := hvalid.setter
  simp only [UndefinedOfOtherKind, SameFields, Property.toDescriptor, PropertyDescriptor.empty,
    PropertyAttributes.empty]
  grind [hasGetterObject, hasSetterObject, hasValue, hasWritable, PropertyDescriptor.enumerable,
    PropertyDescriptor.configurable]

end Data

section Accessor

variable {getter setter : Option Object} {enumerable configurable : Bool}

theorem agreesWith_accessor (hkind : desc.isDataDescriptor = false)
    (h : SameFields desc ((Property.accessor getter setter enumerable configurable).toDescriptor o) = true)
    : AgreesWith desc.record (Property.accessor getter setter enumerable configurable).record = true := by
  simp only [AgreesWith, record, Property.record, agrees_ite, agrees_ite_none]
  simp only [SameFields, Property.toDescriptor, PropertyDescriptor.empty, PropertyAttributes.empty] at h
  grind [hasValue, hasWritable, isAccessorDescriptor, isGenericDescriptor, isDataDescriptor,
    PropertyDescriptor.enumerable, PropertyDescriptor.configurable]

theorem undefined_accessor (hkind : desc.isDataDescriptor = true)
    : UndefinedOfOtherKind desc (Property.accessor getter setter enumerable configurable) ↔ configurable = false
          ∧ SameFields desc ((Property.accessor getter setter enumerable configurable).toDescriptor o) = true := by
  simp only [UndefinedOfOtherKind, SameFields, Property.toDescriptor, PropertyDescriptor.empty,
    PropertyAttributes.empty]
  grind [hasGetterObject, hasSetterObject, hasValue, hasWritable, isAccessorDescriptor, isGenericDescriptor,
    isDataDescriptor, PropertyDescriptor.enumerable, PropertyDescriptor.configurable]

end Accessor

theorem sameFields_of_undefined (hvalid : desc.Valid) (h : UndefinedOfOtherKind desc property)
    : SameFields desc (property.toDescriptor o) = true := by
  cases property with
  | data value writable enumerable configurable => exact ((undefined_data hvalid h.right.left).mp h).right
  | accessor getter setter enumerable configurable =>
    have hkind : desc.isDataDescriptor = true := by
      rw [← isDataDescriptor_record, IsDataDescriptor, record]
      simp [h.right.left]
    exact ((undefined_accessor hkind).mp h).right

theorem validate_of_otherKind (hgeneric : Desc.IsGenericDescriptor = false)
    (hagrees : ¬AgreesWith Desc current = true) (hkind : current.IsDataDescriptor ≠ Desc.IsDataDescriptor)
    : ValidateAndApplyPropertyDescriptor extensible Desc (some current) = true ↔ current.configurable ≠ some false := by
  have hempty : Desc ≠ ⟨none, none, none, none, none, none⟩ := by
    rintro rfl
    exact nomatch hgeneric
  rw [validate_iff, validateRest_otherKind hgeneric hkind]
  simp only [hempty, hagrees, false_or, Bool.false_eq_true]

theorem validate_of_sameFields (hvalid : desc.Valid) (h : SameFields desc (property.toDescriptor o) = true)
    : ValidateAndApplyPropertyDescriptor extensible desc.record (some property.record) = true
        ↔ ¬UndefinedOfOtherKind desc property := by
  cases property with
  | data value writable enumerable configurable =>
    cases hkind : desc.isAccessorDescriptor with
    | false =>
      refine iff_of_true (validate_iff.mpr (Or.inr (Or.inl (agreesWith_data hkind h)))) fun hundefined => ?_
      rw [hundefined.right.left] at hkind
      exact nomatch hkind
    | true =>
      have hrecord : desc.record.IsAccessorDescriptor = true := by rw [isAccessorDescriptor_record, hkind]
      have hdata : desc.record.IsDataDescriptor = false := by
        rw [isDataDescriptor_record, isDataDescriptor, hkind]
        rfl
      rw [undefined_data (o := o) hvalid hkind, validate_of_otherKind]
      . simp [Property.record, h]
      . rw [IsGenericDescriptor, hrecord]
        rfl
      . exact fun hagrees => nomatch isAccessorDescriptor_of_agreesWith hagrees hrecord
      . rw [hdata]
        exact Bool.noConfusion
  | accessor getter setter enumerable configurable =>
    cases hkind : desc.isDataDescriptor with
    | false =>
      refine iff_of_true (validate_iff.mpr (Or.inr (Or.inl (agreesWith_accessor hkind h)))) fun hundefined => ?_
      rw [isDataDescriptor, Bool.and_eq_false_iff] at hkind
      obtain ⟨-, hvalue, -⟩ := hundefined
      simp only [hasValue, Bool.and_eq_true] at hvalue
      rcases hkind with hkind | hkind
      . rw [hvalue.left] at hkind
        exact nomatch hkind
      simp [isGenericDescriptor] at hkind hvalue
      rw [hkind.right] at hvalue
      exact nomatch hvalue.right
    | true =>
      have hrecord : desc.record.IsDataDescriptor = true := by rw [isDataDescriptor_record, hkind]
      rw [undefined_accessor (o := o) hkind, validate_of_otherKind]
      . simp [Property.record, h]
      . rw [IsGenericDescriptor, hrecord]
        simp
      . exact fun hagrees => nomatch isDataDescriptor_of_agreesWith hagrees hrecord
      . rw [hrecord]
        exact Bool.noConfusion

theorem isDataDescriptor_of_validate (h : ValidateAndApplyPropertyDescriptor extensible Desc (some current) = true)
    (hconfigurable : current.configurable = some false) (hkind : Desc.IsDataDescriptor = true)
    : current.IsDataDescriptor = true := by
  have hgeneric : Desc.IsGenericDescriptor = false := by
    rw [IsGenericDescriptor, hkind, Bool.not_true, Bool.and_false]
  rcases validate_iff.mp h with rfl | h | h
  . exact nomatch hkind
  . exact isDataDescriptor_of_agreesWith h hkind
  by_contra hother
  rw [validateRest_otherKind hgeneric (by rw [hkind]; exact hother)] at h
  exact h hconfigurable

theorem isCompatible_of_sameFields (hsame : SameFields desc (property.toDescriptor o) = true)
    : IsCompatiblePropertyDescriptor extensible desc (property.toDescriptor o) = none := by
  rw [IsCompatiblePropertyDescriptor, ← SameFields]
  simp [hsame, toDescriptor_obj]

theorem isCompatible_some_iff (hvalid : desc.Valid)
    : (IsCompatiblePropertyDescriptor extensible desc (property.toDescriptor o) = none
          ↔ ValidateAndApplyPropertyDescriptor extensible desc.record (some property.record) = true)
        ↔ ¬UndefinedOfOtherKind desc property := by
  by_cases hsame : SameFields desc (property.toDescriptor o) = true
  . rw [validate_of_sameFields hvalid hsame]
    simp [isCompatible_of_sameFields hsame]
  have hempty : desc.record ≠ ⟨none, none, none, none, none, none⟩ := fun hempty => by
    apply hsame
    apply sameFields_of_agreesWith
    rw [hempty]
    rfl
  have hagrees : ¬AgreesWith desc.record property.record = true := fun h => hsame (sameFields_of_agreesWith h)
  rw [isCompatible_rest hempty hsame, validate_iff]
  simp only [hempty, hagrees, false_or, Bool.false_eq_true]
  exact iff_of_true trivial fun h => hsame (sameFields_of_undefined hvalid h)

theorem isCompatible_none_iff
    : IsCompatiblePropertyDescriptor extensible desc .empty = none ↔ extensible = true := by
  cases extensible <;> simp [IsCompatiblePropertyDescriptor, PropertyDescriptor.empty]

end IsCompatible

end SpiderMonkey
