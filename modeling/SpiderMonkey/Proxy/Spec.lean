import SpiderMonkey.Proxy.Impl.ScriptedProxyHandler

/-!
This module contains what the specification says of proxies: descriptors as records whose fields may be absent, the
validation of a descriptor against a property, and the invariants that the result of each internal method must keep
with the state of the target.
-/

namespace SpiderMonkey

structure PropertyRecord (Object : Type) where
  value : Option (Value Object)
  writable : Option Bool
  get : Option (Option Object)
  set : Option (Option Object)
  enumerable : Option Bool
  configurable : Option Bool
deriving DecidableEq, Repr

namespace PropertyRecord

variable {Object : Type}

def IsAccessorDescriptor (Desc : PropertyRecord Object) : Bool := Desc.get.isSome || Desc.set.isSome

def IsDataDescriptor (Desc : PropertyRecord Object) : Bool := Desc.value.isSome || Desc.writable.isSome

def IsGenericDescriptor (Desc : PropertyRecord Object) : Bool := !Desc.IsAccessorDescriptor && !Desc.IsDataDescriptor

def agrees {Field : Type} [DecidableEq Field] (field current : Option Field) : Bool := field.isNone || field = current

variable [DecidableEq Object]

-- With an undefined object, so that nothing is applied.
def ValidateAndApplyPropertyDescriptor (extensible : Bool) (Desc : PropertyRecord Object)
    (current : Option (PropertyRecord Object)) : Bool :=
  match current with
  -- Step 2.
  | none => extensible
  | some current =>
    -- Step 3.
    if Desc = ⟨none, none, none, none, none, none⟩ then
      true
    -- Step 4.
    else if agrees Desc.value current.value && agrees Desc.writable current.writable && agrees Desc.get current.get
        && agrees Desc.set current.set && agrees Desc.enumerable current.enumerable
        && agrees Desc.configurable current.configurable then
      true
    -- Step 5.
    else if current.configurable = some false && Desc.configurable = some true then
      false
    else if current.configurable = some false && !agrees Desc.enumerable current.enumerable then
      false
    -- Step 6.
    else if Desc.IsGenericDescriptor then
      true
    -- Step 7.
    else if current.IsDataDescriptor ≠ Desc.IsDataDescriptor then
      current.configurable ≠ some false
    -- Step 8.
    else if current.IsDataDescriptor then
      if current.configurable = some false && current.writable = some false then
        if Desc.writable = some true then
          false
        else
          agrees Desc.value current.value
      else
        true
    -- Step 9.
    else if current.configurable = some false then
      agrees Desc.set current.set && agrees Desc.get current.get
    -- Step 11.
    else
      true

end PropertyRecord

def PropertyDescriptor.record {Object : Type} (desc : PropertyDescriptor Object) : PropertyRecord Object where
  value := if desc.hasValue then some desc.value else none
  writable := if desc.hasWritable then some desc.writable else none
  get := if desc.hasGetterObject then some desc.getter else none
  set := if desc.hasSetterObject then some desc.setter else none
  enumerable := if desc.hasEnumerable then some desc.enumerable else none
  configurable := if desc.hasConfigurable then some desc.configurable else none

def Property.record {Object : Type} : Property Object → PropertyRecord Object
  | .data value writable enumerable configurable =>
    ⟨some value, some writable, none, none, some enumerable, some configurable⟩
  | .accessor getter setter enumerable configurable =>
    ⟨none, none, some getter, some setter, some enumerable, some configurable⟩

def Property.configurable {Object : Type} (property : Property Object) : Bool :=
  property.record.configurable = some true

namespace ScriptedProxyHandler

open PropertyRecord

variable {State Object : Type}

inductive Request (Object : Type) where
  | getPrototype
  | setPrototype (proto : Option Object)
  | preventExtensions
  | isExtensible
  | getOwnPropertyDescriptor (id : PropertyKey)
  | defineProperty (id : PropertyKey) (desc : PropertyDescriptor Object)
  | ownPropertyKeys
  | delete_ (id : PropertyKey)
  | has (id : PropertyKey)
  | get (receiver : Value Object) (id : PropertyKey)
  | set (id : PropertyKey) (v receiver : Value Object)

inductive Answer (Object : Type) where
  | prototype (proto : Option Object)
  | result (result : ObjectOpResult)
  | boolean (b : Bool)
  | descriptor (desc : PropertyDescriptor Object)
  | keys (props : List PropertyKey)
  | value (v : Value Object)

def MayBeAbsent (target : OrdinaryObject Object) (id : PropertyKey) : Prop :=
  ∀ property, target.getOwnProperty id = some property → property.configurable = true ∧ target.extensible = true

variable [DecidableEq Object]

def Allows (target : OrdinaryObject Object) : Request Object → Answer Object → Prop
  | .getPrototype, .prototype proto => target.extensible = false → proto = target.proto
  | .setPrototype proto, .result result =>
    result = .succeed → target.extensible = false → proto = target.proto
  | .preventExtensions, .result result => result = .succeed → target.extensible = false
  | .isExtensible, .boolean b => b = target.extensible
  | .getOwnPropertyDescriptor id, .descriptor desc =>
    if desc.obj = none then
      MayBeAbsent target id
    else
      desc.Complete
        ∧ ValidateAndApplyPropertyDescriptor target.extensible desc.record
            ((target.getOwnProperty id).map Property.record) = true
        ∧ (desc.configurable = false → ∃ property, target.getOwnProperty id = some property
          ∧ property.configurable = false ∧ (desc.record.writable = some false → property.record.writable = some false))
  | .defineProperty id desc, .result result =>
    result = .succeed →
      ValidateAndApplyPropertyDescriptor target.extensible desc.record
          ((target.getOwnProperty id).map Property.record) = true
        ∧ (desc.record.configurable = some false → ∃ property, target.getOwnProperty id = some property
          ∧ property.configurable = false)
        ∧ ∀ property, target.getOwnProperty id = some property → property.configurable = false
          → property.record.writable = some true → desc.record.writable ≠ some false
  | .ownPropertyKeys, .keys props =>
    props.Nodup
      ∧ (∀ id property, (id, property) ∈ target.properties → property.configurable = false → id ∈ props)
      ∧ (target.extensible = false → ∀ id, id ∈ props ↔ id ∈ target.keys)
  | .delete_ id, .result result => result = .succeed → MayBeAbsent target id
  | .has id, .boolean b => b = false → MayBeAbsent target id
  | .get _ id, .value v =>
    (∀ value enumerable, target.getOwnProperty id = some (.data value false enumerable false) → v = value)
      ∧ ∀ setter enumerable, target.getOwnProperty id = some (.accessor none setter enumerable false) → v = .undefined
  | .set id v _, .result result =>
    result = .succeed →
      (∀ value enumerable, target.getOwnProperty id = some (.data value false enumerable false) → v = value)
        ∧ ∀ getter enumerable, target.getOwnProperty id ≠ some (.accessor getter none enumerable false)
  | _, _ => False

end ScriptedProxyHandler

end SpiderMonkey
