import Mathlib.Data.Int.NatAbs

/-!
This module contains property descriptors, with their bits and what they say of a property, and the ordinary
objects whose properties they describe.
-/

namespace SpiderMonkey

-- A double; there is but one NaN.
structure Number where
  bits : BitVec 64
  canonical : bits.toNat % 2 ^ 63 > 0x7FF0000000000000 → bits = 0x7FF8000000000000#64
deriving DecidableEq, Repr

inductive PropertyKey where
  | string (chars : List (BitVec 16))
  | symbol (s : Nat)
deriving DecidableEq, Repr

inductive Value (Object : Type) where
  | undefined
  | null
  | boolean (b : Bool)
  | number (n : Number)
  | bigint (i : Int)
  | string (chars : List (BitVec 16))
  | symbol (s : Nat)
  | object (o : Object)
deriving DecidableEq, Repr

namespace Value

variable {Object : Type}

def isObjectOrNull : Value Object → Bool
  | .null => true
  | .object _ => true
  | _ => false

def toObjectOrNull : Value Object → Option Object
  | .object o => some o
  | _ => none

def objectOrNull : Option Object → Value Object
  | none => .null
  | some o => .object o

end Value

structure PropertyAttributes where
  enumerate : Bool
  readonly : Bool
  permanent : Bool
  getter : Bool
  setter : Bool
  ignoreEnumerate : Bool
  ignoreReadonly : Bool
  ignorePermanent : Bool
  ignoreValue : Bool
deriving DecidableEq, Repr

def PropertyAttributes.empty : PropertyAttributes :=
  ⟨false, false, false, false, false, false, false, false, false⟩

structure PropertyDescriptor (Object : Type) where
  obj : Option Object
  attrs : PropertyAttributes
  getter : Option Object
  setter : Option Object
  value : Value Object
deriving DecidableEq, Repr

namespace PropertyDescriptor

variable {Object : Type}

def isAccessorDescriptor (desc : PropertyDescriptor Object) : Bool := desc.attrs.getter || desc.attrs.setter

def isGenericDescriptor (desc : PropertyDescriptor Object) : Bool :=
  !desc.attrs.getter && !desc.attrs.setter && desc.attrs.ignoreReadonly && desc.attrs.ignoreValue

def isDataDescriptor (desc : PropertyDescriptor Object) : Bool :=
  !desc.isAccessorDescriptor && !desc.isGenericDescriptor

def hasConfigurable (desc : PropertyDescriptor Object) : Bool := !desc.attrs.ignorePermanent

def configurable (desc : PropertyDescriptor Object) : Bool := !desc.attrs.permanent

def hasEnumerable (desc : PropertyDescriptor Object) : Bool := !desc.attrs.ignoreEnumerate

def enumerable (desc : PropertyDescriptor Object) : Bool := desc.attrs.enumerate

def hasValue (desc : PropertyDescriptor Object) : Bool := !desc.isAccessorDescriptor && !desc.attrs.ignoreValue

def hasWritable (desc : PropertyDescriptor Object) : Bool := !desc.isAccessorDescriptor && !desc.attrs.ignoreReadonly

def writable (desc : PropertyDescriptor Object) : Bool := !desc.attrs.readonly

def hasGetterObject (desc : PropertyDescriptor Object) : Bool := desc.attrs.getter

def hasSetterObject (desc : PropertyDescriptor Object) : Bool := desc.attrs.setter

def setGetterObject (desc : PropertyDescriptor Object) (obj : Option Object) : PropertyDescriptor Object :=
  { desc with
    getter := obj
    attrs := { desc.attrs with ignoreValue := false, ignoreReadonly := false, readonly := false, getter := true } }

def setSetterObject (desc : PropertyDescriptor Object) (obj : Option Object) : PropertyDescriptor Object :=
  { desc with
    setter := obj
    attrs := { desc.attrs with ignoreValue := false, ignoreReadonly := false, readonly := false, setter := true } }

def empty : PropertyDescriptor Object where
  obj := none
  attrs := .empty
  getter := none
  setter := none
  value := .undefined

structure Valid (desc : PropertyDescriptor Object) : Prop where
  enumerate : ¬(desc.attrs.ignoreEnumerate = true ∧ desc.attrs.enumerate = true)
  permanent : ¬(desc.attrs.ignorePermanent = true ∧ desc.attrs.permanent = true)
  accessor : desc.isAccessorDescriptor = true → desc.attrs.readonly = false ∧ desc.attrs.ignoreReadonly = false
    ∧ desc.attrs.ignoreValue = false ∧ desc.value = .undefined
  getter : desc.attrs.getter = false → desc.isAccessorDescriptor = true → desc.getter = none
  setter : desc.attrs.setter = false → desc.isAccessorDescriptor = true → desc.setter = none
  readonly : desc.isAccessorDescriptor = false → ¬(desc.attrs.ignoreReadonly = true ∧ desc.attrs.readonly = true)
  ignoreValue : desc.isAccessorDescriptor = false → desc.attrs.ignoreValue = true → desc.value = .undefined

structure Complete (desc : PropertyDescriptor Object) : Prop extends Valid desc where
  ignoreEnumerate : desc.attrs.ignoreEnumerate = false
  ignoreReadonly : desc.attrs.ignoreReadonly = false
  ignorePermanent : desc.attrs.ignorePermanent = false
  ignoreValue_eq : desc.attrs.ignoreValue = false
  getter_setter : desc.isAccessorDescriptor = true → desc.attrs.getter = true ∧ desc.attrs.setter = true

end PropertyDescriptor

def CompletePropertyDescriptor {Object : Type} (desc : PropertyDescriptor Object) : PropertyDescriptor Object :=
  let desc :=
    if desc.isGenericDescriptor || desc.isDataDescriptor then
      let readonly := if !desc.hasWritable then true else desc.attrs.readonly
      { desc with attrs := { desc.attrs with readonly, ignoreReadonly := false, ignoreValue := false } }
    else
      let desc := if !desc.hasGetterObject then desc.setGetterObject none else desc
      let desc := if !desc.hasSetterObject then desc.setSetterObject none else desc
      { desc with attrs := { desc.attrs with getter := true, setter := true } }
  let permanent := if !desc.hasConfigurable then true else desc.attrs.permanent
  { desc with attrs := { desc.attrs with permanent, ignorePermanent := false, ignoreEnumerate := false } }

inductive Property (Object : Type) where
  | data (value : Value Object) (writable enumerable configurable : Bool)
  | accessor (getter setter : Option Object) (enumerable configurable : Bool)
deriving DecidableEq, Repr

structure OrdinaryObject (Object : Type) where
  properties : List (PropertyKey × Property Object)
  extensible : Bool
  proto : Option Object
  nodup : (properties.map Prod.fst).Nodup

namespace OrdinaryObject

variable {Object : Type}

def keys (target : OrdinaryObject Object) : List PropertyKey := target.properties.map Prod.fst

def getOwnProperty (target : OrdinaryObject Object) (id : PropertyKey) : Option (Property Object) :=
  target.properties.lookup id

end OrdinaryObject

def Property.toDescriptor {Object : Type} (obj : Object) : Property Object → PropertyDescriptor Object
  | .data value writable enumerable configurable =>
    { PropertyDescriptor.empty with
      obj := some obj
      attrs := { PropertyAttributes.empty with
        enumerate := enumerable
        readonly := !writable
        permanent := !configurable }
      value }
  | .accessor getter setter enumerable configurable =>
    { PropertyDescriptor.empty with
      obj := some obj
      attrs := { PropertyAttributes.empty with
        enumerate := enumerable
        permanent := !configurable
        getter := true
        setter := true }
      getter
      setter }

end SpiderMonkey
