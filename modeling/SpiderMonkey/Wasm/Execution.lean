import SpiderMonkey.Wasm.Typing
import Mathlib.Logic.Relation

/-!
This module contains the execution of function bodies: what the operators do to the values on the stack, over
any values that have a type and, as conditions and indices, a number.
-/

namespace SpiderMonkey.Wasm

namespace Execution

structure Label where
  arity : Nat
  height : Nat
  continuation : List Op
deriving DecidableEq, Repr

structure Config (V : Type) where
  code : List Op
  stack : List V
  labels : List Label
  locals : List V

-- The operators that follow the `end` of the innermost block that is open, with `depth` more inside of it.
def afterEnd : Nat → List Op → List Op
  | _, [] => []
  | depth, .Block _ :: ops | depth, .Loop _ :: ops | depth, .If _ :: ops => afterEnd (depth + 1) ops
  | 0, .End :: ops => ops
  | depth + 1, .End :: ops => afterEnd depth ops
  | depth, _ :: ops => afterEnd depth ops

def afterElse : Nat → List Op → Option (List Op)
  | _, [] => none
  | depth, .Block _ :: ops | depth, .Loop _ :: ops | depth, .If _ :: ops => afterElse (depth + 1) ops
  | 0, .Else :: ops => some ops
  | 0, .End :: _ => none
  | depth + 1, .End :: ops => afterElse depth ops
  | depth, _ :: ops => afterElse depth ops

section

variable (env : ModuleEnvironment) {V : Type} (typeOf : V → ValType) (i32 : V → Nat)

def HasType (v : V) (t : ValType) : Prop := OpIter.isSubtypeOf env (typeOf v) t = true

def HaveTypes (vs : List V) (types : List ValType) : Prop :=
  List.Forall₂ (HasType env typeOf) vs types.reverse

def branch (c : Config V) (depth : Nat) (label : Label) : Config V := { c with
  code := label.continuation
  stack := c.stack.take label.arity ++ c.stack.drop (c.stack.length - label.height)
  labels := c.labels.drop (depth + 1) }

inductive Step : Config V → Config V → Prop where
  | block {code : BlockCode} {type : BlockType} {ops : List Op} {stack : List V} {labels : List Label}
    {locals : List V}
    : OpIter.readBlockType env code = .ok type
      → Step ⟨.Block code :: ops, stack, labels, locals⟩
        ⟨ops, stack, ⟨type.results.length, stack.length - type.params.length, afterEnd 0 ops⟩ :: labels, locals⟩
  | loop {code : BlockCode} {type : BlockType} {ops : List Op} {stack : List V} {labels : List Label}
    {locals : List V}
    : OpIter.readBlockType env code = .ok type
      → Step ⟨.Loop code :: ops, stack, labels, locals⟩
        ⟨ops, stack, ⟨type.params.length, stack.length - type.params.length, .Loop code :: ops⟩ :: labels, locals⟩
  | ifThen {code : BlockCode} {type : BlockType} {ops : List Op} {c : V} {stack : List V} {labels : List Label}
    {locals : List V}
    : OpIter.readBlockType env code = .ok type → i32 c ≠ 0
      → Step ⟨.If code :: ops, c :: stack, labels, locals⟩
        ⟨ops, stack, ⟨type.results.length, stack.length - type.params.length, afterEnd 0 ops⟩ :: labels, locals⟩
  | ifElse {code : BlockCode} {type : BlockType} {ops arm : List Op} {c : V} {stack : List V}
    {labels : List Label} {locals : List V}
    : OpIter.readBlockType env code = .ok type → i32 c = 0 → afterElse 0 ops = some arm
      → Step ⟨.If code :: ops, c :: stack, labels, locals⟩
        ⟨arm, stack, ⟨type.results.length, stack.length - type.params.length, afterEnd 0 ops⟩ :: labels, locals⟩
  | ifEnd {code : BlockCode} {ops : List Op} {c : V} {stack : List V} {labels : List Label} {locals : List V}
    : i32 c = 0 → afterElse 0 ops = none
      → Step ⟨.If code :: ops, c :: stack, labels, locals⟩ ⟨afterEnd 0 ops, stack, labels, locals⟩
  | else {ops : List Op} {stack : List V} {label : Label} {labels : List Label} {locals : List V}
    : Step ⟨.Else :: ops, stack, label :: labels, locals⟩ ⟨label.continuation, stack, labels, locals⟩
  | end {ops : List Op} {stack : List V} {label : Label} {labels : List Label} {locals : List V}
    : Step ⟨.End :: ops, stack, label :: labels, locals⟩ ⟨ops, stack, labels, locals⟩
  | br {depth : Nat} {ops : List Op} {stack : List V} {label : Label} {labels : List Label} {locals : List V}
    : labels[depth]? = some label
      → Step ⟨.Br depth :: ops, stack, labels, locals⟩ (branch ⟨ops, stack, labels, locals⟩ depth label)
  | brIfTaken {depth : Nat} {ops : List Op} {c : V} {stack : List V} {label : Label} {labels : List Label}
    {locals : List V}
    : i32 c ≠ 0 → labels[depth]? = some label
      → Step ⟨.BrIf depth :: ops, c :: stack, labels, locals⟩ (branch ⟨ops, stack, labels, locals⟩ depth label)
  | brIfNot {depth : Nat} {ops : List Op} {c : V} {stack : List V} {labels : List Label} {locals : List V}
    : i32 c = 0 → Step ⟨.BrIf depth :: ops, c :: stack, labels, locals⟩ ⟨ops, stack, labels, locals⟩
  | brTable {depths : List Nat} {defaultDepth : Nat} {ops : List Op} {c : V} {stack : List V} {label : Label}
    {labels : List Label} {locals : List V}
    : labels[depths[i32 c]?.getD defaultDepth]? = some label
      → Step ⟨.BrTable depths defaultDepth :: ops, c :: stack, labels, locals⟩
        (branch ⟨ops, stack, labels, locals⟩ (depths[i32 c]?.getD defaultDepth) label)
  | return {ops : List Op} {stack : List V} {label : Label} {labels : List Label} {locals : List V}
    : labels.getLast? = some label
      → Step ⟨.Return :: ops, stack, labels, locals⟩
        (branch ⟨ops, stack, labels, locals⟩ (labels.length - 1) label)
  | drop {ops : List Op} {v : V} {stack : List V} {labels : List Label} {locals : List V}
    : Step ⟨.Drop :: ops, v :: stack, labels, locals⟩ ⟨ops, stack, labels, locals⟩
  | select {ops : List Op} {c falseValue trueValue : V} {stack : List V} {labels : List Label} {locals : List V}
    : Step ⟨.Select :: ops, c :: falseValue :: trueValue :: stack, labels, locals⟩
      ⟨ops, (if i32 c = 0 then falseValue else trueValue) :: stack, labels, locals⟩
  | selectTyped {results : List ValType} {ops : List Op} {c falseValue trueValue : V} {stack : List V}
    {labels : List Label} {locals : List V}
    : Step ⟨.SelectTyped results :: ops, c :: falseValue :: trueValue :: stack, labels, locals⟩
      ⟨ops, (if i32 c = 0 then falseValue else trueValue) :: stack, labels, locals⟩
  | getLocal {id : Nat} {ops : List Op} {v : V} {stack : List V} {labels : List Label} {locals : List V}
    : locals[id]? = some v
      → Step ⟨.GetLocal id :: ops, stack, labels, locals⟩ ⟨ops, v :: stack, labels, locals⟩
  | setLocal {id : Nat} {ops : List Op} {v : V} {stack : List V} {labels : List Label} {locals : List V}
    : Step ⟨.SetLocal id :: ops, v :: stack, labels, locals⟩ ⟨ops, stack, labels, locals.set id v⟩
  | teeLocal {id : Nat} {ops : List Op} {v : V} {stack : List V} {labels : List Label} {locals : List V}
    : Step ⟨.TeeLocal id :: ops, v :: stack, labels, locals⟩ ⟨ops, v :: stack, labels, locals.set id v⟩
  | call {funcIndex : Nat} {funcType : FuncType} {ops : List Op} {args results : List V} {stack : List V}
    {labels : List Label} {locals : List V}
    : env.funcTypes[funcIndex]? = some funcType → args.length = funcType.args.length
      → HaveTypes env typeOf results funcType.results
      → Step ⟨.Call funcIndex :: ops, args ++ stack, labels, locals⟩ ⟨ops, results ++ stack, labels, locals⟩
  | fixed {operandTypes resultTypes : List ValType} {ops : List Op} {args results : List V} {stack : List V}
    {labels : List Label} {locals : List V}
    : args.length = operandTypes.length → HaveTypes env typeOf results resultTypes
      → Step ⟨.Fixed operandTypes resultTypes :: ops, args ++ stack, labels, locals⟩
        ⟨ops, results ++ stack, labels, locals⟩

def start (results : List ValType) (ops : List Op) (locals : List V) : Config V :=
  ⟨ops, [], [⟨results.length, 0, []⟩], locals⟩

-- The value can be where this type is on the stack of the iterator.
def Typed (v : V) : StackType → Prop
  | .tvar => False
  | .val t => HasType env typeOf v t

end

end Execution

open Execution in
-- Whenever an execution gets to an operator, the iterator has recorded the types of the values there.
def RecordsTypes (env : ModuleEnvironment) (locals results : List ValType) (ops : List Op) : Prop :=
  ∀ (V : Type) (typeOf : V → ValType) (i32 : V → Nat) (values : List V),
    List.Forall₂ (HasType env typeOf) values locals
      → ∀ c, Relation.ReflTransGen (Step env typeOf i32) (start results ops values) c
        → c.code ≠ [] → ∃ pre it, ops = pre ++ c.code
          ∧ OpIter.readOps env locals (OpIter.readFunctionStart results) pre = .ok it
          ∧ List.Forall₂ (Typed env typeOf) c.stack it.valueStack

end SpiderMonkey.Wasm
