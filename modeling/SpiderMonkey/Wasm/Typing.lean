import SpiderMonkey.Wasm.Impl.OpIter
import Mathlib.Data.List.Forall2

/-!
This module contains the typing rules of function bodies.
-/

namespace SpiderMonkey.Wasm

inductive StackType.Le (env : ModuleEnvironment) : StackType → StackType → Prop where
  | tvar (t : StackType) : Le env .tvar t
  | val {a b : ValType} : OpIter.isSubtypeOf env a b = true → Le env (.val a) (.val b)

def stackOf (types : List ValType) : List StackType := (types.map .val).reverse

-- `Derives env locals labels ops a b`: with operands of the types `a`, the operators leave operands of the
-- types `b`. The last label is the one of the body.
inductive Derives (env : ModuleEnvironment) (locals : List ValType) :
    List (List ValType) → List Op → List StackType → List StackType → Prop where
  | nil {labels : List (List ValType)} (a : List StackType) : Derives env locals labels [] a a
  | append {labels : List (List ValType)} {ops ops' : List Op} {a b c : List StackType}
    : Derives env locals labels ops a b → Derives env locals labels ops' b c
      → Derives env locals labels (ops ++ ops') a c
  | frame {labels : List (List ValType)} {ops : List Op} {a b : List StackType} (r : List StackType)
    : Derives env locals labels ops a b → Derives env locals labels ops (a ++ r) (b ++ r)
  | sub {labels : List (List ValType)} {ops : List Op} {a a' b b' : List StackType}
    : List.Forall₂ (StackType.Le env) a' a → List.Forall₂ (StackType.Le env) b b'
      → Derives env locals labels ops a b → Derives env locals labels ops a' b'
  | block {labels : List (List ValType)} {code : BlockCode} {type : BlockType} {body : List Op}
    : OpIter.readBlockType env code = .ok type
      → Derives env locals (type.results :: labels) body (stackOf type.params) (stackOf type.results)
      → Derives env locals labels (.Block code :: (body ++ [.End]))
        (stackOf type.params) (stackOf type.results)
  | loop {labels : List (List ValType)} {code : BlockCode} {type : BlockType} {body : List Op}
    : OpIter.readBlockType env code = .ok type
      → Derives env locals (type.params :: labels) body (stackOf type.params) (stackOf type.results)
      → Derives env locals labels (.Loop code :: (body ++ [.End]))
        (stackOf type.params) (stackOf type.results)
  | ifElse {labels : List (List ValType)} {code : BlockCode} {type : BlockType} {body body' : List Op}
    : OpIter.readBlockType env code = .ok type
      → Derives env locals (type.results :: labels) body (stackOf type.params) (stackOf type.results)
      → Derives env locals (type.results :: labels) body' (stackOf type.params) (stackOf type.results)
      → Derives env locals labels (.If code :: (body ++ .Else :: (body' ++ [.End])))
        (.val .I32 :: stackOf type.params) (stackOf type.results)
  | ifEnd {labels : List (List ValType)} {code : BlockCode} {type : BlockType} {body : List Op}
    : OpIter.readBlockType env code = .ok type → type.params = type.results
      → Derives env locals (type.results :: labels) body (stackOf type.params) (stackOf type.results)
      → Derives env locals labels (.If code :: (body ++ [.End]))
        (.val .I32 :: stackOf type.params) (stackOf type.results)
  | br {labels : List (List ValType)} {depth : Nat} {label : List ValType} (a b : List StackType)
    : labels[depth]? = some label → Derives env locals labels [.Br depth] (stackOf label ++ a) b
  | brIf {labels : List (List ValType)} {depth : Nat} {label : List ValType}
    : labels[depth]? = some label
      → Derives env locals labels [.BrIf depth] (.val .I32 :: stackOf label) (stackOf label)
  | brTable {labels : List (List ValType)} {depths : List Nat} {defaultDepth : Nat}
    {types : List ValType} (a b : List StackType)
    : depths.length ≤ MaxBrTableElems
      → (∀ depth ∈ depths ++ [defaultDepth], ∃ label, labels[depth]? = some label
        ∧ List.Forall₂ (OpIter.isSubtypeOf env · · = true) types label)
      → Derives env locals labels [.BrTable depths defaultDepth] (.val .I32 :: (stackOf types ++ a)) b
  | return {labels : List (List ValType)} {results : List ValType} (a b : List StackType)
    : labels.getLast? = some results → Derives env locals labels [.Return] (stackOf results ++ a) b
  | unreachable {labels : List (List ValType)} (a b : List StackType)
    : Derives env locals labels [.Unreachable] a b
  | drop {labels : List (List ValType)} (t : StackType) : Derives env locals labels [.Drop] [t] []
  | select {labels : List (List ValType)} {t : StackType}
    : t.isValidForUntypedSelect = true → Derives env locals labels [.Select] [.val .I32, t, t] [t]
  | selectTyped {labels : List (List ValType)} (t : ValType)
    : Derives env locals labels [.SelectTyped [t]] [.val .I32, .val t, .val t] [.val t]
  | getLocal {labels : List (List ValType)} {id : Nat} {t : ValType}
    : locals[id]? = some t → Derives env locals labels [.GetLocal id] [] [.val t]
  | setLocal {labels : List (List ValType)} {id : Nat} {t : ValType}
    : locals[id]? = some t → Derives env locals labels [.SetLocal id] [.val t] []
  | teeLocal {labels : List (List ValType)} {id : Nat} {t : ValType}
    : locals[id]? = some t → Derives env locals labels [.TeeLocal id] [.val t] [.val t]
  | call {labels : List (List ValType)} {funcIndex : Nat} {funcType : FuncType}
    : env.funcTypes[funcIndex]? = some funcType
      → Derives env locals labels [.Call funcIndex] (stackOf funcType.args) (stackOf funcType.results)
  | fixed {labels : List (List ValType)} (operandTypes resultTypes : List ValType)
    : Derives env locals labels [.Fixed operandTypes resultTypes] (stackOf operandTypes) (stackOf resultTypes)

def DerivesBody (env : ModuleEnvironment) (locals results : List ValType) (ops : List Op) : Prop :=
  ∃ body, ops = body ++ [.End] ∧ Derives env locals [results] body [] (stackOf results)

section Subtype

variable {env : ModuleEnvironment} {a b c : ValType}

theorem hasPrefix_iff {fields other : StructType} : fields.hasPrefix other = true ↔ List.IsPrefix other fields := by
  unfold StructType.hasPrefix
  rw [List.prefix_iff_getElem?]
  split
  next hlt =>
    refine ⟨nofun, fun h => ?_⟩
    have := h fields.length hlt
    rw [List.getElem?_eq_none (Nat.le_refl _)] at this
    contradiction
  next =>
    rw [List.all_eq_true]
    constructor
    . intro h i hi
      have := h i (List.mem_range.mpr hi)
      rw [decide_eq_true_iff] at this
      rw [this, List.getElem?_eq_getElem hi]
    . intro h i hi
      have hi := List.mem_range.mp hi
      rw [decide_eq_true_iff, h i hi, List.getElem?_eq_getElem hi]

theorem isSubtypeOf_refl (env : ModuleEnvironment) (a : ValType) : OpIter.isSubtypeOf env a a = true := by
  unfold OpIter.isSubtypeOf
  rw [decide_eq_true rfl]
  rfl

theorem isReference_of_structType? (h : env.structType? a = some fields)
    : a.isReference = true := by
  cases a with
  | Ref rt => rfl
  | _ => contradiction

theorem isRefSubtypeOf_iff : env.isRefSubtypeOf a b = true ↔ a = b ∨ env.gcTypesEnabled = true
    ∧ ∃ fields, env.structType? a = some fields ∧ (b = .Ref .Any
      ∨ ∃ other, env.structType? b = some other ∧ List.IsPrefix other fields) := by
  unfold ModuleEnvironment.isRefSubtypeOf ModuleEnvironment.isStructType ModuleEnvironment.isStructPrefixOf
    ValType.isAnyRef
  by_cases heq : a = b
  . rw [if_pos heq]
    exact ⟨fun _ => .inl heq, fun _ => rfl⟩
  rw [if_neg heq]
  cases hgc : env.gcTypesEnabled with
  | false => simp [heq]
  | true =>
    cases ha : env.structType? a with
    | none => simp [heq]
    | some fields =>
      by_cases hany : b = .Ref .Any
      . simp [hany]
      cases hb : env.structType? b with
      | none => simp [heq, hany]
      | some other => simp [heq, hany, hasPrefix_iff]

theorem isSubtypeOf_iff : OpIter.isSubtypeOf env a b = true ↔ a = b ∨ env.gcTypesEnabled = true
    ∧ ∃ fields, env.structType? a = some fields ∧ (b = .Ref .Any
      ∨ ∃ other, env.structType? b = some other ∧ List.IsPrefix other fields) := by
  unfold OpIter.isSubtypeOf
  rw [Bool.or_eq_true, Bool.and_eq_true, Bool.and_eq_true, decide_eq_true_iff, isRefSubtypeOf_iff]
  constructor
  . rintro (heq | ⟨-, h⟩)
    . exact .inl heq
    . exact h
  rintro (heq | h)
  . exact .inl heq
  refine .inr ⟨?_, .inr h⟩
  obtain ⟨-, fields, ha, hb⟩ := h
  refine ⟨isReference_of_structType? ha, ?_⟩
  rcases hb with rfl | ⟨other, hb, -⟩
  . rfl
  . exact isReference_of_structType? hb

theorem isSubtypeOf_trans (h : OpIter.isSubtypeOf env a b = true) (h' : OpIter.isSubtypeOf env b c = true)
    : OpIter.isSubtypeOf env a c = true := by
  rw [isSubtypeOf_iff] at h h' ⊢
  rcases h with rfl | ⟨hgc, fields, ha, hb⟩
  . exact h'
  rcases h' with rfl | ⟨-, fields', hb', hc⟩
  . exact .inr ⟨hgc, fields, ha, hb⟩
  refine .inr ⟨hgc, fields, ha, ?_⟩
  rcases hc with rfl | ⟨last, hc, hlast⟩
  . exact .inl rfl
  right
  refine ⟨last, hc, ?_⟩
  rcases hb with rfl | ⟨other, hb, hle⟩
  . contradiction
  rw [hb', Option.some.injEq] at hb
  subst hb
  exact hlast.trans hle

theorem StackType.Le.refl (env : ModuleEnvironment) (t : StackType) : StackType.Le env t t := by
  cases t with
  | tvar => exact .tvar _
  | val a => exact .val (isSubtypeOf_refl env a)

theorem StackType.Le.trans (h : StackType.Le env r s) (h' : StackType.Le env s t)
    : StackType.Le env r t := by
  cases h with
  | tvar => exact .tvar _
  | val h =>
    cases h' with
    | val h' => exact .val (isSubtypeOf_trans h h')

theorem le_refl_all (env : ModuleEnvironment) (ts : List StackType)
    : List.Forall₂ (StackType.Le env) ts ts :=
  List.forall₂_same.mpr fun t _ => .refl env t

theorem le_trans_all (h : List.Forall₂ (StackType.Le env) rs ss)
    (h' : List.Forall₂ (StackType.Le env) ss ts) : List.Forall₂ (StackType.Le env) rs ts := by
  induction h generalizing ts with
  | nil => exact h'
  | cons h _ ih =>
    cases h' with
    | cons h' ht => exact .cons (h.trans h') (ih ht)

end Subtype

end SpiderMonkey.Wasm
