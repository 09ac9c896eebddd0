import SpiderMonkey.Wasm.Impl.Memory

/-!
This module contains the tables of wasm instances and the instructions on them. There is no result when an element
outside of a table or of a segment is accessed, or when the program crashes.
-/

namespace SpiderMonkey.Wasm

-- The code and the data of the instance that it runs in are null together.
abbrev FunctionTableElem (Code Tls : Type) := Option (Code × Tls)

inductive Elements (Obj Code Tls : Type) where
  | functions (functions : List (FunctionTableElem Code Tls))
  | objects (objects : List (Option Obj))

structure Table (Obj Code Tls : Type) where
  elements : Elements Obj Code Tls
  maximum : Option Nat

-- The functions of all instances: the object for what is in a table, what is in a table for an object, and the object
-- for an index of the instance.
structure Functions (Obj Code Tls : Type) where
  getExportedFunction : Code → Tls → Obj
  funcTableEntry : Obj → Code × Tls
  refFunc : Nat → Obj

def MaxTableLength : Nat := 10000000

variable {Obj Code Tls : Type}

namespace Table

def store {α : Type} (l : List α) (index : Nat) (a : α) : Option (List α) :=
  if index < l.length then some (l.set index a) else none

def isFunction (table : Table Obj Code Tls) : Bool :=
  match table.elements with
  | .functions _ => true
  | .objects _ => false

def length (table : Table Obj Code Tls) : Nat :=
  match table.elements with
  | .functions functions => functions.length
  | .objects objects => objects.length

def setElem (index : Nat) (elem : FunctionTableElem Code Tls) (table : Table Obj Code Tls)
    : Option (Table Obj Code Tls) :=
  match table.elements with
  | .functions functions => (store functions index elem).map fun l => { table with elements := .functions l }
  | .objects _ => none

def setFuncRef (index : Nat) (code : Code) (tls : Tls) (table : Table Obj Code Tls) : Option (Table Obj Code Tls) :=
  table.setElem index (some (code, tls))

def setAnyRef (index : Nat) (ref : Option Obj) (table : Table Obj Code Tls) : Option (Table Obj Code Tls) :=
  match table.elements with
  | .functions _ => none
  | .objects objects => (store objects index ref).map fun l => { table with elements := .objects l }

def fillAnyRef (index fillCount : Nat) (ref : Option Obj) (table : Table Obj Code Tls) : Option (Table Obj Code Tls) :=
  (List.range fillCount).foldlM (fun table i => table.setAnyRef (index + i) ref) table

def setNull (index : Nat) (table : Table Obj Code Tls) : Option (Table Obj Code Tls) :=
  match table.elements with
  | .functions _ => table.setElem index none
  | .objects _ => table.fillAnyRef index 1 none

def fillFuncRef (fns : Functions Obj Code Tls) (index fillCount : Nat) (ref : Option Obj) (table : Table Obj Code Tls)
    : Option (Table Obj Code Tls) :=
  match ref with
  | none => (List.range fillCount).foldlM (fun table i => table.setNull (index + i)) table
  | some fun' =>
    let (code, tls) := fns.funcTableEntry fun'
    (List.range fillCount).foldlM (fun table i => table.setFuncRef (index + i) code tls) table

def getFuncRef (fns : Functions Obj Code Tls) (succeeds : Bool) : FunctionTableElem Code Tls → Except Trap (Option Obj)
  | none => .ok none
  | some (code, tls) => if succeeds then .ok (some (fns.getExportedFunction code tls)) else .error .OutOfMemory

def copy (fns : Functions Obj Code Tls) (succeeds : Bool) (srcTable : Table Obj Code Tls) (dstIndex srcIndex : Nat)
    (table : Table Obj Code Tls) : Option (Except Trap (Table Obj Code Tls)) :=
  match table.elements, srcTable.elements with
  | .functions _, .functions srcFunctions => do
    let src ← srcFunctions[srcIndex]?
    (table.setElem dstIndex src).map .ok
  | .functions _, .objects _ => none
  | .objects _, .objects srcObjects => do
    let ref ← srcObjects[srcIndex]?
    (table.fillAnyRef dstIndex 1 ref).map .ok
  | .objects _, .functions srcFunctions => do
    let elem ← srcFunctions[srcIndex]?
    match getFuncRef fns succeeds elem with
    | .error trap => some (.error trap)
    | .ok fun' => (table.fillAnyRef dstIndex 1 fun').map .ok

def GrowFailed : Nat := 2 ^ 32 - 1

def grow (succeeds : Bool) (delta : Nat) (table : Table Obj Code Tls) : Nat × Table Obj Code Tls :=
  if delta = 0 then (table.length, table)
  else if table.length + delta ≥ 2 ^ 32 ∨ table.length + delta > MaxTableLength then (GrowFailed, table)
  else if table.maximum.any fun maximum => table.length + delta > maximum then (GrowFailed, table)
  else if !succeeds then (GrowFailed, table)
  else
    let elements :=
      match table.elements with
      | .functions functions => .functions (functions ++ List.replicate delta none)
      | .objects objects => .objects (objects ++ List.replicate delta none)
    (table.length, { table with elements := elements })

end Table

def NullFuncIndex : Nat := 2 ^ 32 - 1

inductive ElemSegmentKind where
  | Active
  | Passive
  | Declared
deriving DecidableEq

structure ElemSegment where
  kind : ElemSegmentKind
  elemFuncIndices : List Nat
  length_lt : elemFuncIndices.length < 2 ^ 32

-- The same table may be there under several indices. An import that is a function of another instance has its code and
-- data.
structure Instance (Code Tls : Type) where
  tables : List Nat
  passiveElemSegments : List (Option ElemSegment)
  funcImports : List (Option (Code × Tls))
  funcTableEntry : Nat → Code
  tlsData : Tls

def passiveElemSegments (elemSegments : List ElemSegment) : List (Option ElemSegment) :=
  elemSegments.map fun seg => if seg.kind = .Passive then some seg else none

abbrev Heap (Obj Code Tls : Type) := List (Table Obj Code Tls)

abbrev TableResult (Obj Code Tls : Type) := Heap Obj Code Tls × Except Trap Unit

namespace Instance

variable (fns : Functions Obj Code Tls) (succeeds : Nat → Bool) (instance' : Instance Code Tls)

def tableLength (table : Table Obj Code Tls) : UInt32 := UInt32.ofNat table.length

def copyElems (dstId srcId dstOffset srcOffset : Nat)
    : (offsets : List Nat) → Heap Obj Code Tls → Option (TableResult Obj Code Tls)
  | [], heap => some (heap, .ok ())
  | i :: offsets, heap => do
    let dstTable ← heap[dstId]?
    let srcTable ← heap[srcId]?
    match ← Table.copy fns (succeeds i) srcTable (dstOffset + i) (srcOffset + i) dstTable with
    | .error trap => some (heap, .error trap)
    | .ok table => copyElems dstId srcId dstOffset srcOffset offsets (heap.set dstId table)

-- Two references are at the same address when they have the same index.
def tableCopy (heap : Heap Obj Code Tls) (dstOffset srcOffset len : UInt32) (dstTableIndex srcTableIndex : Nat)
    : Option (TableResult Obj Code Tls) := do
  let srcId ← instance'.tables[srcTableIndex]?
  let srcTable ← heap[srcId]?
  let dstId ← instance'.tables[dstTableIndex]?
  let dstTable ← heap[dstId]?
  let dstOffsetLimit := dstOffset.toUInt64 + len.toUInt64
  let srcOffsetLimit := srcOffset.toUInt64 + len.toUInt64
  if dstOffsetLimit > (tableLength dstTable).toUInt64 ∨ srcOffsetLimit > (tableLength srcTable).toUInt64 then
    some (heap, .error .OutOfBounds)
  else if srcTableIndex = dstTableIndex ∧ dstOffset > srcOffset then
    copyElems fns succeeds dstId srcId dstOffset.toNat srcOffset.toNat (List.range len.toNat).reverse heap
  else if srcTableIndex = dstTableIndex ∧ dstOffset = srcOffset then some (heap, .ok ())
  else copyElems fns succeeds dstId srcId dstOffset.toNat srcOffset.toNat (List.range len.toNat) heap

-- The program crashes for an index that validation excludes.
def elemDrop (segIndex : Nat) : Option (Instance Code Tls) :=
  match instance'.passiveElemSegments[segIndex]? with
  | none => none
  | some none => some instance'
  | some (some _) =>
    some { instance' with passiveElemSegments := instance'.passiveElemSegments.set segIndex none }

def setElem (table : Table Obj Code Tls) (succeeds : Bool) (index funcIndex : Nat)
    : Option (Except Trap (Table Obj Code Tls)) :=
  if funcIndex = NullFuncIndex then (table.setNull index).map .ok
  else if !table.isFunction then
    if succeeds then (table.fillAnyRef index 1 (some (fns.refFunc funcIndex))).map .ok
    else some (.error .OutOfMemory)
  else
    match instance'.funcImports[funcIndex]? with
    | some (some (code, tls)) => (table.setFuncRef index code tls).map .ok
    | _ => (table.setFuncRef index (instance'.funcTableEntry funcIndex) instance'.tlsData).map .ok

def initElems (seg : ElemSegment) (dstOffset srcOffset : Nat)
    : (offsets : List Nat) → Table Obj Code Tls → Option (Table Obj Code Tls × Except Trap Unit)
  | [], table => some (table, .ok ())
  | i :: offsets, table => do
    let funcIndex ← seg.elemFuncIndices[srcOffset + i]?
    match ← setElem fns instance' table (succeeds i) (dstOffset + i) funcIndex with
    | .error trap => some (table, .error trap)
    | .ok table => initElems seg dstOffset srcOffset offsets table

def tableInit (heap : Heap Obj Code Tls) (dstOffset srcOffset len : UInt32) (segIndex tableIndex : Nat)
    : Option (TableResult Obj Code Tls) :=
  match instance'.passiveElemSegments[segIndex]? with
  | none => none
  | some none => if len = 0 ∧ srcOffset = 0 then some (heap, .ok ()) else some (heap, .error .OutOfBounds)
  | some (some seg) => do
    let segLen := UInt32.ofNat seg.elemFuncIndices.length
    let id ← instance'.tables[tableIndex]?
    let table ← heap[id]?
    let dstOffsetLimit := dstOffset.toUInt64 + len.toUInt64
    let srcOffsetLimit := srcOffset.toUInt64 + len.toUInt64
    if dstOffsetLimit > (tableLength table).toUInt64 ∨ srcOffsetLimit > segLen.toUInt64 then
      some (heap, .error .OutOfBounds)
    else
      let (table, result) ← initElems fns succeeds instance' seg dstOffset.toNat srcOffset.toNat
        (List.range len.toNat) table
      some (heap.set id table, result)

def fill (table : Table Obj Code Tls) (start len : Nat) (value : Option Obj) : Option (Table Obj Code Tls) :=
  if table.isFunction then table.fillFuncRef fns start len value else table.fillAnyRef start len value

def tableFill (heap : Heap Obj Code Tls) (start : UInt32) (value : Option Obj) (len : UInt32) (tableIndex : Nat)
    : Option (TableResult Obj Code Tls) := do
  let id ← instance'.tables[tableIndex]?
  let table ← heap[id]?
  let offsetLimit := start.toUInt64 + len.toUInt64
  if offsetLimit > (tableLength table).toUInt64 then some (heap, .error .OutOfBounds)
  else
    let table ← fill fns table start.toNat len.toNat value
    some (heap.set id table, .ok ())

def tableGrow (heap : Heap Obj Code Tls) (initValue : Option Obj) (delta : UInt32) (allocates : Bool) (tableIndex : Nat)
    : Option (Heap Obj Code Tls × Nat) := do
  let id ← instance'.tables[tableIndex]?
  let table ← heap[id]?
  let (oldSize, table) := table.grow allocates delta.toNat
  if oldSize ≠ Table.GrowFailed ∧ initValue.isSome then
    let table ← fill fns table oldSize delta.toNat initValue
    some (heap.set id table, oldSize)
  else some (heap.set id table, oldSize)

end Instance
end SpiderMonkey.Wasm
