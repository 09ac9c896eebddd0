import Mathlib.Data.Int.NatAbs

/-!
This module contains the validation of function bodies: the iterator that keeps the types of the operand
stack and the stack of the blocks that are open.
-/

namespace SpiderMonkey.Wasm

inductive RefType where
  | Any
  | Func
  | TypeIndex (typeIndex : Nat)
deriving DecidableEq, Repr

inductive ValType where
  | I32
  | I64
  | F32
  | F64
  | V128
  | Ref (rt : RefType)
deriving DecidableEq, Repr

def ValType.toString : ValType → String
  | I32 => "i32"
  | I64 => "i64"
  | F32 => "f32"
  | F64 => "f64"
  | V128 => "v128"
  | Ref .Any => "externref"
  | Ref .Func => "funcref"
  | Ref (.TypeIndex typeIndex) => "optref " ++ ToString.toString typeIndex

def ValType.isReference : ValType → Bool
  | Ref _ => true
  | _ => false

def ValType.isAnyRef (t : ValType) : Bool := t = Ref .Any

structure FuncType where
  args : List ValType
  results : List ValType
deriving DecidableEq, Repr

structure StructField where
  type : ValType
  isMutable : Bool
deriving DecidableEq, Repr

abbrev StructType := List StructField

def StructType.hasPrefix (fields other : StructType) : Bool :=
  if fields.length < other.length then false
  else (List.range other.length).all fun i => fields[i]? = other[i]?

inductive TypeDef where
  | func (funcType : FuncType)
  | struct (structType : StructType)
deriving DecidableEq, Repr

structure ModuleEnvironment where
  types : List TypeDef
  funcTypes : List FuncType
  gcTypesEnabled : Bool
  multiValuesEnabled : Bool
deriving DecidableEq, Repr

namespace ModuleEnvironment

variable (env : ModuleEnvironment)

def structType? : ValType → Option StructType
  | .Ref (.TypeIndex typeIndex) =>
    match env.types[typeIndex]? with
    | some (.struct fields) => some fields
    | _ => none
  | _ => none

def isStructType (t : ValType) : Bool := (env.structType? t).isSome

def isStructPrefixOf (a b : ValType) : Bool :=
  match env.structType? a, env.structType? b with
  | some other, some fields => fields.hasPrefix other
  | _, _ => false

def isRefSubtypeOf (one two : ValType) : Bool :=
  if one = two then true
  else if env.gcTypesEnabled then
    if env.isStructType one && two.isAnyRef then true
    else if env.isStructType one && env.isStructType two then env.isStructPrefixOf two one
    else false
  else false

end ModuleEnvironment

inductive StackType where
  | tvar
  | val (t : ValType)
deriving DecidableEq, Repr

def StackType.isValidForUntypedSelect : StackType → Bool
  | tvar => true
  | val .I32 | val .F32 | val .I64 | val .F64 => true
  | _ => false

inductive LabelKind where
  | Body
  | Block
  | Loop
  | Then
  | Else
deriving DecidableEq, Repr

structure BlockType where
  params : List ValType
  results : List ValType
deriving DecidableEq, Repr

inductive BlockCode where
  | void
  | single (v : ValType)
  | index (x : Nat)
deriving DecidableEq, Repr

structure Control where
  kind : LabelKind
  type : BlockType
  valueStackBase : Nat
  polymorphicBase : Bool
deriving DecidableEq, Repr

def Control.branchTargetType (block : Control) : List ValType :=
  if block.kind = .Loop then block.type.params else block.type.results

-- The top of a stack is the head of its list.
structure OpIter where
  valueStack : List StackType
  elseParamStack : List StackType
  controlStack : List Control
deriving DecidableEq, Repr

-- `Fixed` stands for the operators whose operand and result types are given by their opcode and the
-- module alone.
inductive Op where
  | Block (type : BlockCode)
  | Loop (type : BlockCode)
  | If (type : BlockCode)
  | Else
  | End
  | Br (relativeDepth : Nat)
  | BrIf (relativeDepth : Nat)
  | BrTable (depths : List Nat) (defaultDepth : Nat)
  | Return
  | Unreachable
  | Drop
  | Select
  | SelectTyped (results : List ValType)
  | GetLocal (id : Nat)
  | SetLocal (id : Nat)
  | TeeLocal (id : Nat)
  | Call (funcIndex : Nat)
  | Fixed (operandTypes resultTypes : List ValType)
deriving DecidableEq, Repr

namespace Op

def Unary (operandType : ValType) : Op := Fixed [operandType] [operandType]
def Conversion (operandType resultType : ValType) : Op := Fixed [operandType] [resultType]
def Binary (operandType : ValType) : Op := Fixed [operandType, operandType] [operandType]
def Comparison (operandType : ValType) : Op := Fixed [operandType, operandType] [.I32]
def Nop : Op := Fixed [] []

end Op

def MaxBrTableElems : Nat := 1000000

namespace OpIter

variable (env : ModuleEnvironment)

def isSubtypeOf (actual expected : ValType) : Bool :=
  actual = expected
    || actual.isReference && expected.isReference && env.isRefSubtypeOf actual expected

def checkIsSubtypeOf (actual expected : ValType) : Except String Unit :=
  if isSubtypeOf env actual expected then .ok ()
  else
    .error ("type mismatch: expression has type " ++ actual.toString ++ " but expected " ++ expected.toString)

def failEmptyStack {α : Type} (stack : List StackType) : Except String α :=
  if stack.isEmpty then .error "popping value from empty stack"
  else .error "popping value from outside block"

def popStackType (block : Control) (stack : List StackType) :
    Except String (StackType × List StackType) :=
  if stack.length = block.valueStackBase then
    if block.polymorphicBase then .ok (.tvar, stack) else failEmptyStack stack
  else
    match stack with
    | t :: rest => .ok (t, rest)
    | [] => failEmptyStack stack

def popWithType (block : Control) (expectedType : ValType) (stack : List StackType) :
    Except String (List StackType) := do
  let (stackType, rest) ← popStackType block stack
  match stackType with
  | .tvar => .ok rest
  | .val t =>
    checkIsSubtypeOf env t expectedType
    .ok rest

def popEach (block : Control) : List ValType → List StackType → Except String (List StackType)
  | [], stack => .ok stack
  | expectedType :: expected, stack => do
    let rest ← popWithType env block expectedType stack
    popEach block expected rest

def popWithTypes (block : Control) (expected : List ValType) (stack : List StackType) :
    Except String (List StackType) :=
  popEach env block expected.reverse stack

def push (types : List ValType) (stack : List StackType) : List StackType :=
  (types.map .val).reverse ++ stack

def popThenPushEach (block : Control) (whole : List StackType) :
    List ValType → List StackType → Except String (List StackType)
  | [], stack => .ok stack
  | expectedType :: expected, stack =>
    if stack.length = block.valueStackBase then
      if !block.polymorphicBase then failEmptyStack whole
      else do
        let rest ← popThenPushEach block whole expected stack
        .ok (.val expectedType :: rest)
    else
      match stack with
      | [] => failEmptyStack whole
      | .tvar :: stack => do
        let rest ← popThenPushEach block whole expected stack
        .ok (.val expectedType :: rest)
      | .val observed :: stack => do
        checkIsSubtypeOf env observed expectedType
        let rest ← popThenPushEach block whole expected stack
        .ok (.val observed :: rest)

def popThenPushType (block : Control) (expected : List ValType) (stack : List StackType) :
    Except String (List StackType) :=
  popThenPushEach env block stack expected.reverse stack

def shrinkTo (length : Nat) (stack : List StackType) : List StackType :=
  stack.drop (stack.length - length)

def readBlockType : BlockCode → Except String BlockType
  | .void => .ok ⟨[], []⟩
  | .single v => .ok ⟨[], [v]⟩
  | .index x =>
    if !env.multiValuesEnabled then .error "invalid block type reference"
    else
      match env.types[x]? with
      | none => .error "invalid block type type index"
      | some (.struct _) => .error "block type type index must be func type"
      | some (.func funcType) => .ok ⟨funcType.args, funcType.results⟩

-- Below, `block` is the innermost open block and `outer` are the others.

def pushControl (it : OpIter) (block : Control) (kind : LabelKind) (type : BlockType) :
    Except String OpIter := do
  let stack ← popThenPushType env block type.params it.valueStack
  .ok { it with
    valueStack := stack
    controlStack := ⟨kind, type, stack.length - type.params.length, false⟩ :: it.controlStack }

def checkStackAtEndOfBlock (it : OpIter) (block : Control) : Except String (List StackType) :=
  if block.type.results.length < it.valueStack.length - block.valueStackBase then
    .error "unused values not explicitly dropped by end of block"
  else popThenPushType env block block.type.results it.valueStack

def getControl (it : OpIter) (relativeDepth : Nat) : Except String Control :=
  match it.controlStack[relativeDepth]? with
  | some block => .ok block
  | none => .error "branch depth exceeds current nesting level"

def afterUnconditionalBranch (it : OpIter) (block : Control) (outer : List Control)
    (stack : List StackType) : OpIter :=
  { it with
    valueStack := shrinkTo block.valueStackBase stack
    controlStack := { block with polymorphicBase := true } :: outer }

def readReturn (it : OpIter) (block : Control) (outer : List Control) : Except String OpIter := do
  let body := (block :: outer).getLast (List.cons_ne_nil block outer)
  let stack ← popWithTypes env block body.type.results it.valueStack
  .ok (it.afterUnconditionalBranch block outer stack)

def readIf (it : OpIter) (block : Control) (type : BlockCode) : Except String OpIter := do
  let type ← readBlockType env type
  let stack ← popWithType env block .I32 it.valueStack
  let it ← pushControl env { it with valueStack := stack } block .Then type
  .ok { it with elseParamStack := it.valueStack.take type.params.length ++ it.elseParamStack }

def readElse (it : OpIter) (block : Control) (outer : List Control) : Except String OpIter := do
  if block.kind ≠ .Then then .error "else can only be used within an if"
  else
    let stack ← checkStackAtEndOfBlock env it block
    let nparams := block.type.params.length
    .ok {
      valueStack := it.elseParamStack.take nparams ++ shrinkTo block.valueStackBase stack
      elseParamStack := it.elseParamStack.drop nparams
      controlStack := { block with kind := .Else, polymorphicBase := false } :: outer }

def readEnd (it : OpIter) (block : Control) (outer : List Control) : Except String OpIter := do
  let stack ← checkStackAtEndOfBlock env it block
  if block.kind = .Then then
    if block.type.params ≠ block.type.results then .error "if without else with a result value"
    else .ok ⟨stack, it.elseParamStack.drop block.type.params.length, outer⟩
  else .ok ⟨stack, it.elseParamStack, outer⟩

def checkBranchValue (it : OpIter) (block : Control) (relativeDepth : Nat) (stack : List StackType) :
    Except String (List StackType) := do
  let target ← getControl it relativeDepth
  popThenPushType env block target.branchTargetType stack

def readBr (it : OpIter) (block : Control) (outer : List Control) (relativeDepth : Nat) :
    Except String OpIter := do
  let stack ← checkBranchValue env it block relativeDepth it.valueStack
  .ok (it.afterUnconditionalBranch block outer stack)

def readBrIf (it : OpIter) (block : Control) (relativeDepth : Nat) : Except String OpIter := do
  let stack ← popWithType env block .I32 it.valueStack
  let stack ← checkBranchValue env it block relativeDepth stack
  .ok { it with valueStack := stack }

def checkBrTableEntries (it : OpIter) (block : Control) :
    List Nat → Option Nat → List StackType → Except String (List StackType)
  | [], _, stack => .ok stack
  | relativeDepth :: depths, prevLength, stack => do
    let target ← getControl it relativeDepth
    let type := target.branchTargetType
    if prevLength.any (· ≠ type.length) then .error "br_table targets must all have the same arity"
    else
      let stack ← popThenPushType env block type stack
      checkBrTableEntries it block depths (some type.length) stack

def readBrTable (it : OpIter) (block : Control) (outer : List Control) (depths : List Nat)
    (defaultDepth : Nat) : Except String OpIter := do
  if depths.length > MaxBrTableElems then .error "br_table too big"
  else
    let stack ← popWithType env block .I32 it.valueStack
    let stack ← checkBrTableEntries env it block (depths ++ [defaultDepth]) none stack
    .ok (it.afterUnconditionalBranch block outer stack)

def readSelect (it : OpIter) (block : Control) : Except String OpIter := do
  let stack ← popWithType env block .I32 it.valueStack
  let (falseType, stack) ← popStackType block stack
  let (trueType, stack) ← popStackType block stack
  if !falseType.isValidForUntypedSelect || !trueType.isValidForUntypedSelect then
    .error "invalid types for old-style 'select'"
  else if falseType = .tvar then .ok { it with valueStack := trueType :: stack }
  else if trueType = .tvar ∨ falseType = trueType then .ok { it with valueStack := falseType :: stack }
  else .error "select operand types must match"

def readSelectTyped (it : OpIter) (block : Control) : List ValType → Except String OpIter
  | [result] => do
    let stack ← popWithTypes env block [result, result, .I32] it.valueStack
    .ok { it with valueStack := .val result :: stack }
  | _ => .error "bad number of results"

def readFixed (it : OpIter) (block : Control) (operandTypes resultTypes : List ValType) :
    Except String OpIter := do
  let stack ← popWithTypes env block operandTypes it.valueStack
  .ok { it with valueStack := push resultTypes stack }

def getLocalType (locals : List ValType) (id : Nat) (message : String) : Except String ValType :=
  match locals[id]? with
  | some t => .ok t
  | none => .error message

def readOp (locals : List ValType) (it : OpIter) (op : Op) : Except String OpIter :=
  match it.controlStack with
  | [] => .error "function body length mismatch"
  | block :: outer =>
    match op with
    | .Block type => do
      let type ← readBlockType env type
      pushControl env it block .Block type
    | .Loop type => do
      let type ← readBlockType env type
      pushControl env it block .Loop type
    | .If type => readIf env it block type
    | .Else => readElse env it block outer
    | .End => readEnd env it block outer
    | .Br relativeDepth => readBr env it block outer relativeDepth
    | .BrIf relativeDepth => readBrIf env it block relativeDepth
    | .BrTable depths defaultDepth => readBrTable env it block outer depths defaultDepth
    | .Return => readReturn env it block outer
    | .Unreachable => .ok (it.afterUnconditionalBranch block outer it.valueStack)
    | .Drop => do
      let (_, stack) ← popStackType block it.valueStack
      .ok { it with valueStack := stack }
    | .Select => readSelect env it block
    | .SelectTyped results => readSelectTyped env it block results
    | .GetLocal id => do
      let t ← getLocalType locals id "local.get index out of range"
      .ok { it with valueStack := .val t :: it.valueStack }
    | .SetLocal id => do
      let t ← getLocalType locals id "local.set index out of range"
      readFixed env it block [t] []
    | .TeeLocal id => do
      let t ← getLocalType locals id "local.set index out of range"
      let stack ← popThenPushType env block [t] it.valueStack
      .ok { it with valueStack := stack }
    | .Call funcIndex =>
      match env.funcTypes[funcIndex]? with
      | none => .error "callee index out of range"
      | some funcType => readFixed env it block funcType.args funcType.results
    | .Fixed operandTypes resultTypes => readFixed env it block operandTypes resultTypes

def readFunctionStart (results : List ValType) : OpIter := ⟨[], [], [⟨.Body, ⟨[], results⟩, 0, false⟩]⟩

def readOps (locals : List ValType) (it : OpIter) (ops : List Op) : Except String OpIter :=
  ops.foldlM (readOp env locals) it

-- `DecodeFunctionBodyExprs`: the operators end with the `end` of the body.
def acceptsBody (locals results : List ValType) (ops : List Op) : Bool :=
  match readOps env locals (readFunctionStart results) ops with
  | .ok it => it.controlStack.isEmpty
  | .error _ => false

end OpIter

end SpiderMonkey.Wasm
