import SpiderMonkey.Proxy.Impl.PropertyDescriptor

/-!
This module contains the internal methods of a scripted proxy whose target is an ordinary object. Running out of
memory is left out.
-/

namespace SpiderMonkey.ScriptedProxyHandler

inductive ErrorNumber where
  | JSMSG_PROXY_REVOKED
  | JSMSG_BAD_TRAP
  | JSMSG_BAD_GETPROTOTYPEOF_TRAP_RETURN
  | JSMSG_INCONSISTENT_GETPROTOTYPEOF_TRAP
  | JSMSG_PROXY_SETPROTOTYPEOF_RETURNED_FALSE
  | JSMSG_INCONSISTENT_SETPROTOTYPEOF_TRAP
  | JSMSG_PROXY_PREVENTEXTENSIONS_RETURNED_FALSE
  | JSMSG_CANT_REPORT_AS_NON_EXTENSIBLE
  | JSMSG_PROXY_EXTENSIBILITY
  | JSMSG_PROXY_GETOWN_OBJORUNDEF
  | JSMSG_CANT_REPORT_NC_AS_NE
  | JSMSG_CANT_REPORT_E_AS_NE
  | JSMSG_CANT_REPORT_INVALID
  | JSMSG_CANT_REPORT_NE_AS_NC
  | JSMSG_CANT_REPORT_C_AS_NC
  | JSMSG_CANT_REPORT_W_AS_NW
  | JSMSG_PROXY_DEFINE_RETURNED_FALSE
  | JSMSG_CANT_DEFINE_NEW
  | JSMSG_CANT_DEFINE_NE_AS_NC
  | JSMSG_CANT_DEFINE_INVALID
  | JSMSG_OBJECT_REQUIRED_RET_OWNKEYS
  | JSMSG_OBJECT_REQUIRED_PROP_DESC
  | JSMSG_BAD_GET_SET_FIELD
  | JSMSG_INVALID_DESCRIPTOR
  | JSMSG_OWNKEYS_STR_SYM
  | JSMSG_OWNKEYS_DUPLICATE
  | JSMSG_CANT_SKIP_NC
  | JSMSG_CANT_REPORT_NEW
  | JSMSG_PROXY_DELETE_RETURNED_FALSE
  | JSMSG_CANT_DELETE
  | JSMSG_CANT_DELETE_NON_EXTENSIBLE
  | JSMSG_MUST_REPORT_SAME_VALUE
  | JSMSG_MUST_REPORT_UNDEFINED
  | JSMSG_PROXY_SET_RETURNED_FALSE
  | JSMSG_CANT_SET_NW_NC
  | JSMSG_CANT_SET_WO_SETTER
deriving DecidableEq, Repr

inductive Failure (Object : Type) where
  | exception (v : Value Object)
  | error (errorNumber : ErrorNumber) (id : Option PropertyKey) (details : Option String)
deriving DecidableEq, Repr

inductive ObjectOpResult where
  | succeed
  | fail (code : ErrorNumber)
deriving DecidableEq, Repr

section IsCompatible

variable {Object : Type} [DecidableEq Object]

def IsCompatiblePropertyDescriptor (extensible : Bool) (desc current : PropertyDescriptor Object) : Option String :=
  if current.obj = none then
    if !extensible then some "proxy can't report an extensible object as non-extensible" else none
  else if !desc.hasValue && !desc.hasWritable && !desc.hasGetterObject && !desc.hasSetterObject
      && !desc.hasEnumerable && !desc.hasConfigurable then
    none
  else if (!desc.hasWritable || (current.hasWritable && desc.writable = current.writable))
      && (!desc.hasGetterObject || desc.getter = current.getter)
      && (!desc.hasSetterObject || desc.setter = current.setter)
      && (!desc.hasEnumerable || desc.enumerable = current.enumerable)
      && (!desc.hasConfigurable || desc.configurable = current.configurable)
      && (!desc.hasValue || desc.value = current.value) then
    none
  else if !current.configurable && desc.hasConfigurable && desc.configurable then
    some "proxy can't report an existing non-configurable property as configurable"
  else if !current.configurable && desc.hasEnumerable && desc.enumerable ≠ current.enumerable then
    some "proxy can't report a different 'enumerable' from target when target is not configurable"
  else if desc.isGenericDescriptor then
    none
  else if current.isDataDescriptor ≠ desc.isDataDescriptor then
    if !current.configurable then
      some "proxy can't report a different descriptor type when target is not configurable"
    else
      none
  else if current.isDataDescriptor then
    if !current.configurable && !current.writable then
      if desc.hasWritable && desc.writable then
        some "proxy can't report a non-configurable, non-writable property as writable"
      else if desc.hasValue && desc.value ≠ current.value then
        some "proxy must report the same value for the non-writable, non-configurable property"
      else
        none
    else
      none
  else if current.configurable then
    none
  else if desc.hasSetterObject && desc.setter ≠ current.setter then
    some "proxy can't report different setters for a currently non-configurable property"
  else if desc.hasGetterObject && desc.getter ≠ current.getter then
    some "proxy can't report different getters for a currently non-configurable property"
  else
    none

end IsCompatible

namespace names

def named (name : String) : PropertyKey := .string (name.toList.map fun c => BitVec.ofNat 16 c.toNat)

def getPrototypeOf : PropertyKey := named "getPrototypeOf"
def setPrototypeOf : PropertyKey := named "setPrototypeOf"
def preventExtensions : PropertyKey := named "preventExtensions"
def isExtensible : PropertyKey := named "isExtensible"
def getOwnPropertyDescriptor : PropertyKey := named "getOwnPropertyDescriptor"
def defineProperty : PropertyKey := named "defineProperty"
def ownKeys : PropertyKey := named "ownKeys"
def deleteProperty : PropertyKey := named "deleteProperty"
def has : PropertyKey := named "has"
def get : PropertyKey := named "get"
def set : PropertyKey := named "set"
def enumerable : PropertyKey := named "enumerable"
def configurable : PropertyKey := named "configurable"
def value : PropertyKey := named "value"
def writable : PropertyKey := named "writable"

end names

-- The state of the realm is of any type. What runs user code may change it, and with it the target, or throw.
abbrev RealmM (State Object : Type) := StateT State (Except (Failure Object))

-- A proxy in its realm: its two slots (the handler is gone when the proxy is revoked), the target's own
-- properties, what runs user code on any object, and the internal methods of the target that change it or run
-- user code, which a handler without the trap falls through to.
structure Realm (State Object : Type) where
  handlerObject : State → Option Object
  targetObject : Object
  target : State → OrdinaryObject Object
  isCallable : Object → Bool
  emulatesUndefined : Object → Bool
  hasProperty : Object → PropertyKey → RealmM State Object Bool
  getProperty : Object → PropertyKey → RealmM State Object (Value Object)
  getElement : Object → Nat → RealmM State Object (Value Object)
  getLengthProperty : Object → RealmM State Object Nat
  call : (func thisv : Value Object) → (args : List (Value Object)) → RealmM State Object (Value Object)
  fromPropertyDescriptorToObject : PropertyDescriptor Object → RealmM State Object Object
  targetSetPrototype : Option Object → RealmM State Object ObjectOpResult
  targetPreventExtensions : RealmM State Object ObjectOpResult
  targetDefineProperty : PropertyKey → PropertyDescriptor Object → RealmM State Object ObjectOpResult
  targetDeleteProperty : PropertyKey → RealmM State Object ObjectOpResult
  targetHasProperty : PropertyKey → RealmM State Object Bool
  targetGetProperty : (receiver : Value Object) → PropertyKey → RealmM State Object (Value Object)
  targetSetProperty : PropertyKey → (v receiver : Value Object) → RealmM State Object ObjectOpResult

section

variable {State Object : Type} (realm : Realm State Object)

def reportError {α : Type} (errorNumber : ErrorNumber) : RealmM State Object α := throw (.error errorNumber none none)

def Throw {α : Type} (id : PropertyKey) (errorNumber : ErrorNumber) (details : Option String) : RealmM State Object α :=
  throw (.error errorNumber (some id) details)

def ToBoolean : Value Object → Bool
  | .undefined => false
  | .null => false
  | .boolean b => b
  | .number n => n.bits.toNat % 2 ^ 63 ≠ 0 && !(n.bits.toNat % 2 ^ 63 > 0x7FF0000000000000)
  | .bigint i => i ≠ 0
  | .string chars => !chars.isEmpty
  | .symbol _ => true
  | .object o => !realm.emulatesUndefined o

def IdToStringOrSymbol : PropertyKey → Value Object
  | .string chars => .string chars
  | .symbol s => .symbol s

def ValueToId : Value Object → Option PropertyKey
  | .string chars => some (.string chars)
  | .symbol s => some (.symbol s)
  | _ => none

def IsExtensible : RealmM State Object Bool := do return (realm.target (← get)).extensible

def GetPrototype : RealmM State Object (Option Object) := do return (realm.target (← get)).proto

def GetOwnPropertyDescriptor (id : PropertyKey) : RealmM State Object (PropertyDescriptor Object) := do
  match (realm.target (← get)).getOwnProperty id with
  | none => return .empty
  | some property => return property.toDescriptor realm.targetObject

def GetPropertyKeys : RealmM State Object (List PropertyKey) := do return (realm.target (← get)).keys

def GetPropertyIfPresent (obj : Object) (id : PropertyKey) : RealmM State Object (Option (Value Object)) := do
  if ← realm.hasProperty obj id then return some (← realm.getProperty obj id) else return none

def ToAccessor (checkAccessors : Bool) (fieldName : String)
    : Option (Value Object) → RealmM State Object (Option Object)
  | none => return none
  | some (.object o) =>
    if checkAccessors && !realm.isCallable o then
      throw (.error .JSMSG_BAD_GET_SET_FIELD none (some fieldName))
    else
      return some o
  | some .undefined => return none
  | some _ => throw (.error .JSMSG_BAD_GET_SET_FIELD none (some fieldName))

def ToPropertyDescriptor (descval : Value Object) (checkAccessors : Bool)
    : RealmM State Object (PropertyDescriptor Object) := do
  match descval with
  | .object obj =>
    let enumerable ← GetPropertyIfPresent realm obj names.enumerable
    let configurable ← GetPropertyIfPresent realm obj names.configurable
    let value ← GetPropertyIfPresent realm obj names.value
    let writable ← GetPropertyIfPresent realm obj names.writable
    let get ← GetPropertyIfPresent realm obj names.get
    let getter ← ToAccessor realm checkAccessors "getter" get
    let set ← GetPropertyIfPresent realm obj names.set
    let setter ← ToAccessor realm checkAccessors "setter" set
    let hasGetOrSet := get.isSome || set.isSome
    if hasGetOrSet && (writable.isSome || value.isSome) then
      reportError .JSMSG_INVALID_DESCRIPTOR
    else
      return {
        obj := none
        attrs := {
          enumerate := (enumerable.map (ToBoolean realm)).getD false
          ignoreEnumerate := enumerable.isNone
          permanent := (configurable.map fun v => !ToBoolean realm v).getD false
          ignorePermanent := configurable.isNone
          readonly := (writable.map fun v => !ToBoolean realm v).getD false
          ignoreReadonly := writable.isNone && !hasGetOrSet
          ignoreValue := value.isNone && !hasGetOrSet
          getter := get.isSome
          setter := set.isSome }
        getter
        setter
        value := value.getD .undefined }
  | _ => reportError .JSMSG_OBJECT_REQUIRED_PROP_DESC

variable [DecidableEq Object]

def GetProxyTrap (handler : Object) (name : PropertyKey) : RealmM State Object (Value Object) := do
  match ← realm.getProperty handler name with
  | .undefined => return .undefined
  | .null => return .undefined
  | .object func =>
    if !realm.isCallable func then throw (.error .JSMSG_BAD_TRAP (some name) none) else return .object func
  | _ => throw (.error .JSMSG_BAD_TRAP (some name) none)

-- The steps that all the methods have in common: the result of the trap, if the handler has it. The arguments after
-- the target are found once it is known that there is a trap.
def callTrap (name : PropertyKey) (args : RealmM State Object (List (Value Object)))
    : RealmM State Object (Option (Value Object)) := do
  match realm.handlerObject (← get) with
  | none => reportError .JSMSG_PROXY_REVOKED
  | some handler =>
    let trap ← GetProxyTrap realm handler name
    if trap = .undefined then
      return none
    else
      let args ← args
      return some (← realm.call trap (.object handler) (.object realm.targetObject :: args))

def getPrototype : RealmM State Object (Option Object) := do
  match ← callTrap realm names.getPrototypeOf (pure []) with
  | none => GetPrototype realm
  | some handlerProto =>
    if !handlerProto.isObjectOrNull then
      reportError .JSMSG_BAD_GETPROTOTYPEOF_TRAP_RETURN
    else if ← IsExtensible realm then
      return handlerProto.toObjectOrNull
    else
      let targetProto ← GetPrototype realm
      if handlerProto.toObjectOrNull ≠ targetProto then
        reportError .JSMSG_INCONSISTENT_GETPROTOTYPEOF_TRAP
      else
        return handlerProto.toObjectOrNull

def setPrototype (proto : Option Object) : RealmM State Object ObjectOpResult := do
  match ← callTrap realm names.setPrototypeOf (pure [.objectOrNull proto]) with
  | none => realm.targetSetPrototype proto
  | some hval =>
    if !ToBoolean realm hval then
      return .fail .JSMSG_PROXY_SETPROTOTYPEOF_RETURNED_FALSE
    else if ← IsExtensible realm then
      return .succeed
    else
      let targetProto ← GetPrototype realm
      if proto ≠ targetProto then reportError .JSMSG_INCONSISTENT_SETPROTOTYPEOF_TRAP else return .succeed

def preventExtensions : RealmM State Object ObjectOpResult := do
  match ← callTrap realm names.preventExtensions (pure []) with
  | none => realm.targetPreventExtensions
  | some trapResult =>
    if ToBoolean realm trapResult then
      if ← IsExtensible realm then reportError .JSMSG_CANT_REPORT_AS_NON_EXTENSIBLE else return .succeed
    else
      return .fail .JSMSG_PROXY_PREVENTEXTENSIONS_RETURNED_FALSE

def isExtensible : RealmM State Object Bool := do
  match ← callTrap realm names.isExtensible (pure []) with
  | none => IsExtensible realm
  | some trapResult =>
    let targetResult ← IsExtensible realm
    if targetResult ≠ ToBoolean realm trapResult then
      reportError .JSMSG_PROXY_EXTENSIBILITY
    else
      return ToBoolean realm trapResult

-- The object of the descriptor is the proxy, if a property is found.
def getOwnPropertyDescriptor (proxy : Object) (id : PropertyKey) : RealmM State Object (PropertyDescriptor Object) := do
  match ← callTrap realm names.getOwnPropertyDescriptor (pure [IdToStringOrSymbol id]) with
  | none => GetOwnPropertyDescriptor realm id
  | some .undefined =>
    let targetDesc ← GetOwnPropertyDescriptor realm id
    if targetDesc.obj = none then
      return .empty
    else if !targetDesc.configurable then
      Throw id .JSMSG_CANT_REPORT_NC_AS_NE none
    else if !(← IsExtensible realm) then
      Throw id .JSMSG_CANT_REPORT_E_AS_NE none
    else
      return .empty
  | some (.object trapResult) =>
    let targetDesc ← GetOwnPropertyDescriptor realm id
    let extensibleTarget ← IsExtensible realm
    let resultDesc := CompletePropertyDescriptor (← ToPropertyDescriptor realm (.object trapResult) true)
    match IsCompatiblePropertyDescriptor extensibleTarget resultDesc targetDesc with
    | some errorDetails => Throw id .JSMSG_CANT_REPORT_INVALID (some errorDetails)
    | none =>
      if !resultDesc.configurable && targetDesc.obj = none then
        Throw id .JSMSG_CANT_REPORT_NE_AS_NC none
      else if !resultDesc.configurable && targetDesc.configurable then
        Throw id .JSMSG_CANT_REPORT_C_AS_NC none
      else if !resultDesc.configurable && resultDesc.hasWritable && !resultDesc.writable && targetDesc.writable then
        Throw id .JSMSG_CANT_REPORT_W_AS_NW none
      else
        return { resultDesc with obj := some proxy }
  | some _ => Throw id .JSMSG_PROXY_GETOWN_OBJORUNDEF none

def defineProperty (id : PropertyKey) (desc : PropertyDescriptor Object) : RealmM State Object ObjectOpResult := do
  match ← callTrap realm names.defineProperty (do
    return [IdToStringOrSymbol id, .object (← realm.fromPropertyDescriptorToObject desc)]) with
  | none => realm.targetDefineProperty id desc
  | some trapResult =>
    if !ToBoolean realm trapResult then
      return .fail .JSMSG_PROXY_DEFINE_RETURNED_FALSE
    else
      let targetDesc ← GetOwnPropertyDescriptor realm id
      let extensibleTarget ← IsExtensible realm
      let settingConfigFalse := desc.hasConfigurable && !desc.configurable
      if targetDesc.obj = none then
        if !extensibleTarget then
          Throw id .JSMSG_CANT_DEFINE_NEW none
        else if settingConfigFalse then
          Throw id .JSMSG_CANT_DEFINE_NE_AS_NC none
        else
          return .succeed
      else
        match IsCompatiblePropertyDescriptor extensibleTarget desc targetDesc with
        | some errorDetails => Throw id .JSMSG_CANT_DEFINE_INVALID (some errorDetails)
        | none =>
          if settingConfigFalse && targetDesc.configurable then
            Throw id .JSMSG_CANT_DEFINE_INVALID
              (some "proxy can't define an existing configurable property as non-configurable")
          else if targetDesc.isDataDescriptor && !targetDesc.configurable && targetDesc.writable
              && desc.hasWritable && !desc.writable then
            Throw id .JSMSG_CANT_DEFINE_INVALID
              (some "proxy can't define an existing non-configurable writable property as non-writable")
          else
            return .succeed

def CreateFilteredListFromArrayLike (v : Value Object) : RealmM State Object (List PropertyKey) := do
  match v with
  | .object obj =>
    let len ← realm.getLengthProperty obj
    (List.range len).mapM fun index => do
      match ValueToId (← realm.getElement obj index) with
      | none => reportError .JSMSG_OWNKEYS_STR_SYM
      | some id => return id
  | _ => reportError .JSMSG_OBJECT_REQUIRED_RET_OWNKEYS

def checkDuplicates (uncheckedResultKeys : List PropertyKey) : List PropertyKey → RealmM State Object (List PropertyKey)
  | [] => return uncheckedResultKeys
  | id :: rest =>
    if id ∈ uncheckedResultKeys then
      Throw id .JSMSG_OWNKEYS_DUPLICATE none
    else
      checkDuplicates (id :: uncheckedResultKeys) rest

def removeKeys (errorNumber : ErrorNumber) (uncheckedResultKeys : List PropertyKey)
    : List PropertyKey → RealmM State Object (List PropertyKey)
  | [] => return uncheckedResultKeys
  | id :: rest =>
    if id ∈ uncheckedResultKeys then
      removeKeys errorNumber (uncheckedResultKeys.erase id) rest
    else
      Throw id errorNumber none

def ownPropertyKeys : RealmM State Object (List PropertyKey) := do
  match ← callTrap realm names.ownKeys (pure []) with
  | none => GetPropertyKeys realm
  | some trapResultArray =>
    let trapResult ← CreateFilteredListFromArrayLike realm trapResultArray
    let uncheckedResultKeys ← checkDuplicates [] trapResult
    let extensibleTarget ← IsExtensible realm
    let targetKeys ← GetPropertyKeys realm
    let descs ← targetKeys.mapM fun id => do return (id, ← GetOwnPropertyDescriptor realm id)
    let (nonconfigurable, configurable) := descs.partition fun (_, desc) => desc.obj ≠ none && !desc.configurable
    let targetNonconfigurableKeys := nonconfigurable.map Prod.fst
    let targetConfigurableKeys := configurable.map Prod.fst
    if extensibleTarget && targetNonconfigurableKeys.isEmpty then
      return trapResult
    else
      let uncheckedResultKeys ← removeKeys .JSMSG_CANT_SKIP_NC uncheckedResultKeys targetNonconfigurableKeys
      if extensibleTarget then
        return trapResult
      else
        let uncheckedResultKeys ← removeKeys .JSMSG_CANT_REPORT_E_AS_NE uncheckedResultKeys targetConfigurableKeys
        -- Step 22. Which of the keys is named in the error depends on their hashes.
        match uncheckedResultKeys with
        | id :: _ => Throw id .JSMSG_CANT_REPORT_NEW none
        | [] => return trapResult

def delete_ (id : PropertyKey) : RealmM State Object ObjectOpResult := do
  match ← callTrap realm names.deleteProperty (pure [IdToStringOrSymbol id]) with
  | none => realm.targetDeleteProperty id
  | some trapResult =>
    if !ToBoolean realm trapResult then
      return .fail .JSMSG_PROXY_DELETE_RETURNED_FALSE
    else
      let desc ← GetOwnPropertyDescriptor realm id
      if desc.obj = none then
        return .succeed
      else if !desc.configurable then
        Throw id .JSMSG_CANT_DELETE none
      else if !(← IsExtensible realm) then
        Throw id .JSMSG_CANT_DELETE_NON_EXTENSIBLE none
      else
        return .succeed

def has (id : PropertyKey) : RealmM State Object Bool := do
  match ← callTrap realm names.has (pure [IdToStringOrSymbol id]) with
  | none => realm.targetHasProperty id
  | some trapResult =>
    if !ToBoolean realm trapResult then
      let desc ← GetOwnPropertyDescriptor realm id
      if desc.obj = none then
        return false
      else if !desc.configurable then
        Throw id .JSMSG_CANT_REPORT_NC_AS_NE none
      else if !(← IsExtensible realm) then
        Throw id .JSMSG_CANT_REPORT_E_AS_NE none
      else
        return false
    else
      return true

def get (receiver : Value Object) (id : PropertyKey) : RealmM State Object (Value Object) := do
  match ← callTrap realm names.get (pure [IdToStringOrSymbol id, receiver]) with
  | none => realm.targetGetProperty receiver id
  | some trapResult =>
    let desc ← GetOwnPropertyDescriptor realm id
    if desc.obj ≠ none && desc.isDataDescriptor && !desc.configurable && !desc.writable
        && trapResult ≠ desc.value then
      Throw id .JSMSG_MUST_REPORT_SAME_VALUE none
    else if desc.obj ≠ none && desc.isAccessorDescriptor && !desc.configurable && desc.getter = none
        && trapResult ≠ .undefined then
      Throw id .JSMSG_MUST_REPORT_UNDEFINED none
    else
      return trapResult

def set (id : PropertyKey) (v receiver : Value Object) : RealmM State Object ObjectOpResult := do
  match ← callTrap realm names.set (pure [IdToStringOrSymbol id, v, receiver]) with
  | none => realm.targetSetProperty id v receiver
  | some trapResult =>
    if !ToBoolean realm trapResult then
      return .fail .JSMSG_PROXY_SET_RETURNED_FALSE
    else
      let desc ← GetOwnPropertyDescriptor realm id
      if desc.obj ≠ none && desc.isDataDescriptor && !desc.configurable && !desc.writable && v ≠ desc.value then
        Throw id .JSMSG_CANT_SET_NW_NC none
      else if desc.obj ≠ none && desc.isAccessorDescriptor && !desc.configurable && desc.setter = none then
        Throw id .JSMSG_CANT_SET_WO_SETTER none
      else
        return .succeed

end

end SpiderMonkey.ScriptedProxyHandler
