import SpiderMonkey.Wasm.Lemmas.Execution

/-!
This module contains what the iterator decides about function bodies.
-/

namespace SpiderMonkey.Wasm

namespace OpIter

open Execution

-- The bodies that are accepted are the ones that can be derived, and their values have the recorded types.
def Exact (env : ModuleEnvironment) (locals results : List ValType) (ops : List Op) : Prop :=
  (acceptsBody env locals results ops = true ↔ DerivesBody env locals results ops)
    ∧ (acceptsBody env locals results ops = true → RecordsTypes env locals results ops)

section

variable {env : ModuleEnvironment} {locals results : List ValType} {ops : List Op}

theorem exact_of_faithful (h : Faithful env locals (readFunctionStart results) ops) : Exact env locals results ops := by
  refine ⟨⟨derivesBody_of_acceptsBody h, acceptsBody_of_derivesBody h⟩, fun haccepts => ?_⟩
  exact recordsTypes_of_accepted ⟨h, acceptsBody_eq_true.mp haccepts⟩

-- No type is below another one that is not below it in turn.
def Flat (env : ModuleEnvironment) : Prop :=
  ∀ a b, isSubtypeOf env a b = true → isSubtypeOf env b a = true

theorem not_meetsStrict_of_flat (h : Flat env) {block : Control} {stack : List StackType}
    : ¬MeetsStrict env block expected stack := by
  rintro ⟨x, -, t, -, hle, hno⟩
  rw [h t x.2 hle] at hno
  contradiction

theorem not_strays_of_flat (h : Flat env) (it : OpIter) (op : Op) : ¬Strays env locals it op := by
  rintro ⟨block, outer, -, hstrays⟩
  cases op with
  | Block code =>
    obtain ⟨type, -, hmeets⟩ := hstrays
    exact not_meetsStrict_of_flat h hmeets
  | Loop code =>
    obtain ⟨type, -, hmeets⟩ := hstrays
    exact not_meetsStrict_of_flat h hmeets
  | If code =>
    obtain ⟨type, stack, -, -, hmeets⟩ := hstrays
    exact not_meetsStrict_of_flat h hmeets
  | End => exact not_meetsStrict_of_flat h hstrays.2
  | BrIf depth =>
    obtain ⟨target, stack, -, -, hmeets⟩ := hstrays
    exact not_meetsStrict_of_flat h hmeets
  | BrTable depths defaultDepth =>
    obtain ⟨-, _, -, _, -, _, _, -, -, x, -, t, hle, hle', hno⟩ := hstrays
    rw [isSubtypeOf_trans (h t x.1 hle) hle'] at hno
    contradiction
  | TeeLocal id =>
    obtain ⟨t, -, hmeets⟩ := hstrays
    exact not_meetsStrict_of_flat h hmeets
  | _ => exact hstrays

section Strict

-- A value of type `b` leaves the block by its branch, and one of type `a` by its end.
def narrowing (b : ValType) : List Op :=
  [.Block (.single b), .GetLocal 1, .Fixed [] [.I32], .BrIf 0, .Drop, .GetLocal 0, .End]

variable {a b : ValType} (hle : isSubtypeOf env a b = true)

include hle in
theorem readOps_narrowing : readOps env [a, b] (readFunctionStart []) (narrowing b)
    = .ok ⟨[.val a], [], [⟨.Body, ⟨[], []⟩, 0, false⟩]⟩ := by
  have hrefl := isSubtypeOf_refl env
  simp [narrowing, readOps, readOp, readFunctionStart, readBlockType, pushControl, popThenPushType, popThenPushEach,
    getLocalType, readFixed, popWithTypes, popEach, push, readBrIf, popWithType, popStackType, checkIsSubtypeOf,
    checkBranchValue, getControl, Control.branchTargetType, readEnd, checkStackAtEndOfBlock, hle, hrefl, bind,
    Except.bind, pure, Except.pure]

include hle in
theorem acceptsBody_narrowing : acceptsBody env [a, b] [] (narrowing b ++ [.SetLocal 0, .End]) = true := by
  rw [acceptsBody_eq_true]
  refine ⟨⟨[], [], []⟩, ?_, rfl⟩
  rw [readOps_append, bind_eq_ok]
  refine ⟨_, readOps_narrowing hle, ?_⟩
  have hrefl := isSubtypeOf_refl env
  simp [readOps, readOp, getLocalType, readFixed, popWithTypes, popEach, push, popWithType, popStackType,
    checkIsSubtypeOf, readEnd, checkStackAtEndOfBlock, popThenPushType, popThenPushEach, hrefl, bind, Except.bind,
    pure, Except.pure]

theorem run_narrowing (env : ModuleEnvironment) (a b : ValType)
    : Relation.ReflTransGen (Step env id fun _ => 1) (start [] (narrowing b ++ [.SetLocal 0, .End]) [a, b])
      ⟨[.SetLocal 0, .End], [b], [⟨0, 0, []⟩], [a, b]⟩ := by
  have hblock := @Step.block env ValType id (fun _ => 1) (.single b) ⟨[], [b]⟩
    [.GetLocal 1, .Fixed [] [.I32], .BrIf 0, .Drop, .GetLocal 0, .End, .SetLocal 0, .End] [] [⟨0, 0, []⟩] [a, b] rfl
  have hvalue := @Step.getLocal env ValType id (fun _ => 1) 1
    [.Fixed [] [.I32], .BrIf 0, .Drop, .GetLocal 0, .End, .SetLocal 0, .End] b []
    [⟨1, 0, [.SetLocal 0, .End]⟩, ⟨0, 0, []⟩] [a, b] rfl
  have hcondition := @Step.fixed env ValType id (fun _ => 1) [] [.I32]
    [.BrIf 0, .Drop, .GetLocal 0, .End, .SetLocal 0, .End] [] [.I32] [b]
    [⟨1, 0, [.SetLocal 0, .End]⟩, ⟨0, 0, []⟩] [a, b] rfl (.cons (isSubtypeOf_refl env .I32) .nil)
  have hbranch := @Step.brIfTaken env ValType id (fun _ => 1) 0 [.Drop, .GetLocal 0, .End, .SetLocal 0, .End] .I32 [b]
    ⟨1, 0, [.SetLocal 0, .End]⟩ [⟨1, 0, [.SetLocal 0, .End]⟩, ⟨0, 0, []⟩] [a, b] Nat.one_ne_zero rfl
  exact .head hblock (.head hvalue (.head hcondition (.single hbranch)))

include hle in
theorem not_recordsTypes_narrowing (hno : isSubtypeOf env b a = false)
    : ¬RecordsTypes env [a, b] [] (narrowing b ++ [.SetLocal 0, .End]) := by
  intro hrecords
  have hrefl := isSubtypeOf_refl env
  obtain ⟨pre, it, hops, hread, htyped⟩ := hrecords ValType id (fun _ => 1) [a, b]
    (.cons (hrefl a) (.cons (hrefl b) .nil)) _ (run_narrowing env a b) (List.cons_ne_nil _ _)
  have hpre := List.append_cancel_right hops
  rw [← hpre, readOps_narrowing hle] at hread
  cases hread
  cases htyped with
  | cons htyped _ =>
    have htyped : isSubtypeOf env b a = true := htyped
    rw [hno] at htyped
    contradiction

end Strict

def structEnvironment : ModuleEnvironment :=
  ⟨[.struct [⟨.I32, false⟩], .struct [⟨.I32, false⟩, ⟨.I32, false⟩]], [], true, true⟩

theorem narrowing_not_exact : ¬Exact structEnvironment [.Ref (.TypeIndex 1), .Ref (.TypeIndex 0)] []
    (narrowing (.Ref (.TypeIndex 0)) ++ [.SetLocal 0, .End]) := by
  intro h
  have hle : isSubtypeOf structEnvironment (.Ref (.TypeIndex 1)) (.Ref (.TypeIndex 0)) = true := by decide
  have hno : isSubtypeOf structEnvironment (.Ref (.TypeIndex 0)) (.Ref (.TypeIndex 1)) = false := by decide
  exact not_recordsTypes_narrowing hle hno (h.2 (acceptsBody_narrowing hle))

theorem flat_of_exact (h : ∀ locals results ops, Exact env locals results ops) : Flat env := by
  intro a b hle
  by_contra hno
  rw [Bool.not_eq_true] at hno
  exact not_recordsTypes_narrowing hle hno ((h _ _ _).2 (acceptsBody_narrowing hle))

end

-- A body is decided exactly when no step of its run strays, and all of them are when no two types could make one.
theorem acceptsBody_exact (env : ModuleEnvironment)
    : (∀ locals results ops, Faithful env locals (readFunctionStart results) ops → Exact env locals results ops)
      ∧ ((∀ locals results ops, Exact env locals results ops) ↔ Flat env) := by
  refine ⟨fun _ _ _ h => exact_of_faithful h, flat_of_exact, fun hflat locals results ops => ?_⟩
  exact exact_of_faithful fun pre op post it _ _ => not_strays_of_flat hflat it op

end OpIter

end SpiderMonkey.Wasm
