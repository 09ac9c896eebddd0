import Mathlib.Data.Int.NatAbs

/-!
This module contains the extraction of linear sums from integer definitions.
-/

namespace SpiderMonkey

def SafeAdd (one two : Int32) : Option Int32 :=
  if (one + two).toInt = one.toInt + two.toInt then some (one + two) else none

def SafeSub (one two : Int32) : Option Int32 :=
  if (one - two).toInt = one.toInt - two.toInt then some (one - two) else none

def SafeMul (one two : Int32) : Option Int32 :=
  if (one * two).toInt = one.toInt * two.toInt then some (one * two) else none

inductive MIRType where
  | int32
  | other
deriving DecidableEq, Repr

inductive TruncateKind where
  | noTruncate
  | truncateAfterBailouts
  | indirectTruncate
  | truncate
deriving DecidableEq, Repr

inductive MathSpace where
  | modulo
  | infinite
  | unknown
deriving DecidableEq, Repr

-- A definition with the operands that the extraction may look at. The identity of a definition is
-- its `id`, and `leaf` is any definition that is none of the others: a phi, a parameter, a load, or
-- a constant of another type.
inductive MDefinition where
  | beta (id : Nat) (operand : MDefinition)
  | constant (id : Nat) (value : Int32)
  | add (id : Nat) (type : MIRType) (truncateKind : TruncateKind) (lhs rhs : MDefinition)
  | sub (id : Nat) (type : MIRType) (truncateKind : TruncateKind) (lhs rhs : MDefinition)
  | leaf (id : Nat) (type : MIRType)
deriving DecidableEq, Repr

namespace MDefinition

def type : MDefinition → MIRType
  | beta _ operand => operand.type
  | constant .. => .int32
  | add _ type .. => type
  | sub _ type .. => type
  | leaf _ type => type

end MDefinition

structure SimpleLinearSum where
  term : Option MDefinition
  constant : Int32
deriving DecidableEq, Repr

def ExtractMathSpace : TruncateKind → MathSpace
  | .noTruncate => .infinite
  | .truncateAfterBailouts => .infinite
  | .indirectTruncate => .modulo
  | .truncate => .modulo

def MonotoneAdd (lhs rhs : Int32) : Bool :=
  (lhs ≥ 0 && rhs ≥ 0) || (lhs ≤ 0 && rhs ≤ 0)

def MonotoneSub (lhs rhs : Int32) : Bool :=
  (lhs ≥ 0 && rhs ≤ 0) || (lhs ≤ 0 && rhs ≥ 0)

def addConstants (space : MathSpace) (lhs rhs : Int32) : Option Int32 :=
  match space with
  | .modulo => some (lhs + rhs)
  | _ => if MonotoneAdd lhs rhs then SafeAdd lhs rhs else none

def subConstants (space : MathSpace) (lhs rhs : Int32) : Option Int32 :=
  match space with
  | .modulo => some (lhs - rhs)
  | _ => if MonotoneSub lhs rhs then SafeSub lhs rhs else none

def sameSpace (space insSpace : MathSpace) : Bool :=
  space = .unknown || space = insSpace

def addSums (ins : MDefinition) (space : MathSpace) (lsum rsum : SimpleLinearSum) :
    SimpleLinearSum :=
  if lsum.term.isSome && rsum.term.isSome then
    ⟨some ins, 0⟩
  else
    match addConstants space lsum.constant rsum.constant with
    | some constant => ⟨lsum.term <|> rsum.term, constant⟩
    | none => ⟨some ins, 0⟩

def subSums (ins : MDefinition) (space : MathSpace) (lsum rsum : SimpleLinearSum) :
    SimpleLinearSum :=
  if lsum.term.isSome && rsum.term.isSome then
    ⟨some ins, 0⟩
  else if lsum.term.isSome then
    match subConstants space lsum.constant rsum.constant with
    | some constant => ⟨lsum.term, constant⟩
    | none => ⟨some ins, 0⟩
  else
    ⟨some ins, 0⟩

-- `stripped` says that the beta node which a call may look through has been taken off.
def extractLinearSumAux (ins : MDefinition) (space : MathSpace) (stripped : Bool) :
    SimpleLinearSum :=
  match ins with
  | .beta _ operand => if stripped then ⟨some ins, 0⟩ else extractLinearSumAux operand space true
  | .constant _ value => ⟨none, value⟩
  | .leaf .. => ⟨some ins, 0⟩
  | .add _ type truncateKind lhs rhs =>
    if type = .int32 ∧ sameSpace space (ExtractMathSpace truncateKind) ∧ lhs.type = .int32
        ∧ rhs.type = .int32 then
      addSums ins (ExtractMathSpace truncateKind)
        (extractLinearSumAux lhs (ExtractMathSpace truncateKind) false)
        (extractLinearSumAux rhs (ExtractMathSpace truncateKind) false)
    else
      ⟨some ins, 0⟩
  | .sub _ type truncateKind lhs rhs =>
    if type = .int32 ∧ sameSpace space (ExtractMathSpace truncateKind) ∧ lhs.type = .int32
        ∧ rhs.type = .int32 then
      subSums ins (ExtractMathSpace truncateKind)
        (extractLinearSumAux lhs (ExtractMathSpace truncateKind) false)
        (extractLinearSumAux rhs (ExtractMathSpace truncateKind) false)
    else
      ⟨some ins, 0⟩

def ExtractLinearSum (ins : MDefinition) (space : MathSpace) : SimpleLinearSum :=
  extractLinearSumAux ins space false

-- The values of the definitions. Arithmetic whose result is not truncated bails out on overflow.
def addValue (truncateKind : TruncateKind) (lhs rhs : Int32) : Option Int32 :=
  match ExtractMathSpace truncateKind with
  | .modulo => some (lhs + rhs)
  | _ => SafeAdd lhs rhs

def subValue (truncateKind : TruncateKind) (lhs rhs : Int32) : Option Int32 :=
  match ExtractMathSpace truncateKind with
  | .modulo => some (lhs - rhs)
  | _ => SafeSub lhs rhs

-- `env` has the values of the definitions that are not int32 arithmetic.
def MDefinition.eval (env : Nat → Int32) : MDefinition → Option Int32
  | beta _ operand => operand.eval env
  | constant _ value => some value
  | leaf id _ => some (env id)
  | add id type truncateKind lhs rhs =>
    if type = .int32 ∧ lhs.type = .int32 ∧ rhs.type = .int32 then do
      let l ← lhs.eval env
      let r ← rhs.eval env
      addValue truncateKind l r
    else
      some (env id)
  | sub id type truncateKind lhs rhs =>
    if type = .int32 ∧ lhs.type = .int32 ∧ rhs.type = .int32 then do
      let l ← lhs.eval env
      let r ← rhs.eval env
      subValue truncateKind l r
    else
      some (env id)

def SimpleLinearSum.termEval (sum : SimpleLinearSum) (env : Nat → Int32) : Option Int32 :=
  match sum.term with
  | some term => term.eval env
  | none => some 0

inductive JSOp where
  | Lt
  | Le
  | Gt
  | Ge
  | Eq
  | Ne
  | StrictEq
  | StrictNe
deriving DecidableEq, Repr

def NegateCompareOp : JSOp → JSOp
  | .Gt => .Le
  | .Ge => .Lt
  | .Lt => .Ge
  | .Le => .Gt
  | .StrictEq => .StrictNe
  | .StrictNe => .StrictEq
  | .Eq => .Ne
  | .Ne => .Eq

-- Only whether a comparison is one of int32 values matters here.
structure MCompare where
  isInt32Comparison : Bool
  jsop : JSOp
  lhs : MDefinition
  rhs : MDefinition

inductive BranchDirection where
  | FALSE_BRANCH
  | TRUE_BRANCH
deriving DecidableEq, Repr

structure LinearInequality where
  lhs : SimpleLinearSum
  rhs : Option MDefinition
  lessEqual : Bool

-- `none` where the operand of the test is not a comparison.
def ExtractLinearInequality (test : Option MCompare) (direction : BranchDirection) : Option LinearInequality := do
  let compare ← test
  if compare.isInt32Comparison then
    let jsop := if direction = .FALSE_BRANCH then NegateCompareOp compare.jsop else compare.jsop
    let lsum := ExtractLinearSum compare.lhs .unknown
    let rsum := ExtractLinearSum compare.rhs .unknown
    let constant ← SafeSub lsum.constant rsum.constant
    match jsop with
    | .Le => some ⟨⟨lsum.term, constant⟩, rsum.term, true⟩
    | .Lt => do
      let constant ← SafeAdd constant 1
      some ⟨⟨lsum.term, constant⟩, rsum.term, true⟩
    | .Ge => some ⟨⟨lsum.term, constant⟩, rsum.term, false⟩
    | .Gt => do
      let constant ← SafeSub constant 1
      some ⟨⟨lsum.term, constant⟩, rsum.term, false⟩
    | _ => none
  else
    none

def JSOp.holds (jsop : JSOp) (lhs rhs : Int32) : Bool :=
  match jsop with
  | .Lt => lhs < rhs
  | .Le => lhs ≤ rhs
  | .Gt => lhs > rhs
  | .Ge => lhs ≥ rhs
  | .Eq => lhs = rhs
  | .Ne => lhs ≠ rhs
  | .StrictEq => lhs = rhs
  | .StrictNe => lhs ≠ rhs

def LinearInequality.Holds (i : LinearInequality) (lhs rhs : Int32) : Prop :=
  if i.lessEqual then lhs.toInt + i.lhs.constant.toInt ≤ rhs.toInt
  else lhs.toInt + i.lhs.constant.toInt ≥ rhs.toInt

end SpiderMonkey
