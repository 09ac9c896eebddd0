import SpiderMonkey.Wasm.Execution
import SpiderMonkey.Wasm.Lemmas.Complete

/-!
This module contains the invariant of the executions of an accepted function body: the values have the types
that the iterator has recorded, and every label leads to where it has recorded the types of the label.
-/

namespace SpiderMonkey.Wasm

namespace OpIter

open List

variable {env : ModuleEnvironment} {locals results : List ValType}
variable {it it' : OpIter} {block : Control} {outer : List Control} {seg low : List StackType} {op : Op}

def opens : Op → Option (LabelKind × BlockCode)
  | .Block code => some (.Block, code)
  | .Loop code => some (.Loop, code)
  | .If code => some (.Then, code)
  | _ => none

section Operands

variable (hcontrol : it.controlStack = block :: outer) (hvalue : it.valueStack = seg ++ low)
variable (hbase : block.valueStackBase = low.length)

def Changes (it : OpIter) (block : Control) (outer : List Control) (low : List StackType) (it' : OpIter) : Prop :=
  ∃ seg' poly, it' = ⟨seg' ++ low, it.elseParamStack, { block with polymorphicBase := poly } :: outer⟩

theorem changes_of_eq (h : it' = ⟨seg' ++ low, it.elseParamStack, block :: outer⟩)
    : Changes it block outer low it' :=
  ⟨seg', block.polymorphicBase, h⟩

include hbase in
theorem changes_afterUnconditionalBranch (top : List StackType)
    : Changes it block outer low (it.afterUnconditionalBranch block outer (top ++ low)) := by
  refine ⟨[], true, ?_⟩
  unfold afterUnconditionalBranch
  rw [shrinkTo_append hbase]
  rfl

include hbase in
theorem readOp_changes (hopen : opens op = none) (hclose : op ≠ .Else ∧ op ≠ .End)
    (hread : readOp env locals ⟨seg ++ low, elses, block :: outer⟩ op = .ok it')
    : Changes ⟨seg ++ low, elses, block :: outer⟩ block outer low it' := by
  cases op with
  | Block code => contradiction
  | Loop code => contradiction
  | If code => contradiction
  | Else => exact absurd rfl hclose.1
  | End => exact absurd rfl hclose.2
  | Br depth =>
    obtain ⟨_, types, rest, _, rfl, _⟩ := readBr_full rfl hbase hread
    exact changes_afterUnconditionalBranch hbase _
  | BrIf depth =>
    obtain ⟨_, _, _, types, rest, _, _, rfl, _⟩ := readBrIf_full rfl hbase hread
    exact changes_of_eq rfl
  | BrTable depths defaultDepth =>
    obtain ⟨_, types, rest, _, rfl, _⟩ := readBrTable_full rfl hbase hread
    exact changes_afterUnconditionalBranch hbase _
  | Return =>
    obtain ⟨_, rest, rfl, _⟩ := readReturn_full rfl hbase hread
    exact changes_afterUnconditionalBranch hbase rest
  | Unreachable =>
    cases hread
    exact changes_afterUnconditionalBranch hbase seg
  | Drop =>
    obtain ⟨⟨t, stack⟩, hpop, hread⟩ := bind_eq_ok.mp hread
    obtain ⟨rest, rfl, -⟩ := popStackType_full hbase hpop
    cases hread
    exact changes_of_eq rfl
  | Select =>
    obtain ⟨_, _, _, t, rest, _, _, _, _, _, rfl⟩ := readSelect_full rfl hbase hread
    exact @changes_of_eq _ _ _ _ _ (t :: rest) rfl
  | SelectTyped types =>
    obtain ⟨_, _, rest, _, rfl, _⟩ := readSelectTyped_full rfl hbase hread
    exact changes_of_eq rfl
  | GetLocal id =>
    obtain ⟨t, -, hread⟩ := bind_eq_ok.mp hread
    cases hread
    exact @changes_of_eq _ _ _ _ _ (.val t :: seg) rfl
  | SetLocal id =>
    obtain ⟨t, -, hread⟩ := bind_eq_ok.mp hread
    obtain ⟨_, rest, rfl, _⟩ := readFixed_full rfl hbase hread
    exact changes_of_eq rfl
  | TeeLocal id =>
    obtain ⟨t, -, hread⟩ := bind_eq_ok.mp hread
    obtain ⟨stack, hpop, hread⟩ := bind_eq_ok.mp hread
    obtain ⟨types, rest, rfl, -, -, -⟩ := popThenPushType_full hbase hpop
    cases hread
    exact @changes_of_eq _ _ _ _ _ (stackOf types ++ rest) (by rw [append_assoc])
  | Call funcIndex =>
    unfold readOp at hread
    simp only [] at hread
    split at hread
    next => contradiction
    next =>
      obtain ⟨_, rest, rfl, _⟩ := readFixed_full rfl hbase hread
      exact changes_of_eq rfl
  | Fixed operandTypes resultTypes =>
    obtain ⟨_, rest, rfl, _⟩ := readFixed_full rfl hbase hread
    exact changes_of_eq rfl

end Operands

theorem readOp_opens {kind : LabelKind} {code : BlockCode} (hcontrol : it.controlStack = block :: outer)
    (hopen : opens op = some (kind, code)) (hread : readOp env locals it op = .ok it')
    : ∃ type stack it1, readBlockType env code = .ok type
      ∧ (if kind = .Then then popWithType env block .I32 it.valueStack = .ok stack else stack = it.valueStack)
      ∧ pushControl env { it with valueStack := stack } block kind type = .ok it1
      ∧ it' = { it1 with
        elseParamStack := (if kind = .Then then it1.valueStack.take type.params.length else []) ++ it1.elseParamStack } := by
  obtain ⟨valueStack, elses, controlStack⟩ := it
  obtain rfl : controlStack = block :: outer := hcontrol
  unfold opens at hopen
  split at hopen
  next =>
    cases hopen
    obtain ⟨type, htype, hpush⟩ := bind_eq_ok.mp hread
    exact ⟨type, valueStack, it', htype, rfl, hpush, rfl⟩
  next =>
    cases hopen
    obtain ⟨type, htype, hpush⟩ := bind_eq_ok.mp hread
    exact ⟨type, valueStack, it', htype, rfl, hpush, rfl⟩
  next =>
    cases hopen
    obtain ⟨type, htype, hread⟩ := bind_eq_ok.mp hread
    obtain ⟨stack, hpop, hread⟩ := bind_eq_ok.mp hread
    obtain ⟨it1, hpush, hread⟩ := bind_eq_ok.mp hread
    cases hread
    exact ⟨type, stack, it1, htype, hpop, hpush, rfl⟩
  next => contradiction

theorem readOp_opens_stack {kind : LabelKind} {code : BlockCode} (hcontrol : it.controlStack = block :: outer)
    (hvalue : it.valueStack = seg ++ low) (hbase : block.valueStackBase = low.length)
    (hopen : opens op = some (kind, code)) (hread : readOp env locals it op = .ok it')
    : ∃ type top rest kept, it' = ⟨top ++ (rest ++ low), kept ++ it.elseParamStack,
        ⟨kind, type, (rest ++ low).length, false⟩ :: block :: outer⟩
      ∧ kept.length = if kind = .Then then type.params.length else 0 := by
  obtain ⟨type, stack, it1, -, hstack, hpush, rfl⟩ := readOp_opens hcontrol hopen hread
  obtain ⟨seg1, rfl⟩ : ∃ seg1, stack = seg1 ++ low := by
    split at hstack
    next =>
      rw [hvalue] at hstack
      obtain ⟨_, seg1, hstack, -, -⟩ := popWithType_full hbase hstack
      exact ⟨seg1, hstack⟩
    next => exact ⟨seg, hstack.trans hvalue⟩
  obtain ⟨top, rest, rfl, hlen, -, -, -⟩ := pushControl_full rfl hbase hpush
  refine ⟨type, top, rest, if kind = .Then then top else [], ?_, ?_⟩
  . rw [hcontrol, take_left' hlen]
  split
  next => exact hlen
  next => rfl

theorem readElse_stack (hcontrol : it.controlStack = block :: outer) (hvalue : it.valueStack = seg ++ low)
    (hbase : block.valueStackBase = low.length) (hread : readOp env locals it .Else = .ok it')
    : block.kind = .Then ∧ it' = ⟨it.elseParamStack.take block.type.params.length ++ low,
        it.elseParamStack.drop block.type.params.length,
        { block with kind := .Else, polymorphicBase := false } :: outer⟩
      ∧ ∃ stack, checkStackAtEndOfBlock env it block = .ok stack := by
  unfold readOp at hread
  rw [hcontrol] at hread
  simp only [] at hread
  unfold readElse at hread
  split at hread
  next => contradiction
  next hkind =>
    rw [bind_eq_ok] at hread
    obtain ⟨stack, hcheck, hread⟩ := hread
    obtain ⟨top, rfl, -, -, -⟩ := checkStackAtEndOfBlock_full hvalue hbase hcheck
    rw [shrinkTo_append hbase] at hread
    cases hread
    exact ⟨not_not.mp hkind, rfl, _, hcheck⟩

theorem readEnd_stack (hcontrol : it.controlStack = block :: outer) (hread : readOp env locals it .End = .ok it')
    : ∃ stack, checkStackAtEndOfBlock env it block = .ok stack
      ∧ it' = ⟨stack, it.elseParamStack.drop (if block.kind = .Then then block.type.params.length else 0), outer⟩
      ∧ (block.kind = .Then → block.type.params = block.type.results) := by
  unfold readOp at hread
  rw [hcontrol] at hread
  unfold readEnd at hread
  rw [bind_eq_ok] at hread
  obtain ⟨stack, hcheck, hread⟩ := hread
  refine ⟨stack, hcheck, ?_⟩
  split at hread
  next hkind =>
    split at hread
    next => contradiction
    next heq =>
      cases hread
      rw [if_pos hkind]
      exact ⟨rfl, fun _ => not_not.mp heq⟩
  next hkind =>
    cases hread
    rw [if_neg hkind, drop_zero]
    exact ⟨rfl, fun h => absurd h hkind⟩

section Scan

-- The blocks that are open inside of one that was opened above `low`, whose parameters are kept for its `else`.
inductive Above (type : BlockType) (outer : List Control) (low saved elses : List StackType) :
    LabelKind → Nat → List StackType → List StackType → List Control → Prop where
  | here {block : Control} {seg : List StackType}
    : block.type = type → block.valueStackBase = low.length
      → Above type outer low saved elses block.kind 0 (seg ++ low)
        ((if block.kind = .Then then saved else []) ++ elses) (block :: outer)
  | inside {kind : LabelKind} {depth : Nat} {stack seg es kept : List StackType} {controls : List Control}
    {block : Control}
    : Above type outer low saved elses kind depth stack es controls → block.valueStackBase = stack.length
      → (kept.length = if block.kind = .Then then block.type.params.length else 0)
      → Above type outer low saved elses kind (depth + 1) (seg ++ stack) (kept ++ es) (block :: controls)

variable {type : BlockType} {saved elses stack es : List StackType} {kind : LabelKind} {depth : Nat}
variable {controls : List Control}

theorem Above.push (h : Above type outer low saved elses kind depth stack es controls) (top : List StackType)
    : Above type outer low saved elses kind depth (top ++ stack) es controls := by
  cases h with
  | here htype hbase =>
    rw [← append_assoc]
    exact .here htype hbase
  | inside h hbase hkept =>
    rw [← append_assoc]
    exact .inside h hbase hkept

def AboveAt (type : BlockType) (outer : List Control) (low saved elses : List StackType) (kind : LabelKind)
    (depth : Nat) (it : OpIter) : Prop :=
  Above type outer low saved elses kind depth it.valueStack it.elseParamStack it.controlStack

theorem AboveAt.split (h : AboveAt type outer low saved elses kind depth it)
    : ∃ block controls seg low' es, it = ⟨seg ++ low', es, block :: controls⟩ ∧ block.valueStackBase = low'.length
      ∧ ∀ seg' poly, AboveAt type outer low saved elses kind depth
        ⟨seg' ++ low', es, { block with polymorphicBase := poly } :: controls⟩ := by
  obtain ⟨valueStack, elseParamStack, controlStack⟩ := it
  cases h with
  | @here block seg htype hbase =>
    exact ⟨block, outer, seg, low, _, rfl, hbase, fun seg' poly =>
      @Above.here _ _ _ _ _ { block with polymorphicBase := poly } _ htype hbase⟩
  | @inside _ _ stack seg _ _ controls block h hbase hkept =>
    exact ⟨block, controls, seg, stack, _, rfl, hbase, fun seg' poly =>
      @Above.inside _ _ _ _ _ _ _ _ _ _ _ _ { block with polymorphicBase := poly } h hbase hkept⟩

variable (h : AboveAt type outer low saved elses kind depth it)

include h in
theorem above_opens (hopen : (opens op).isSome) (hread : readOp env locals it op = .ok it')
    : AboveAt type outer low saved elses kind (depth + 1) it' := by
  obtain ⟨⟨kind', code⟩, hopen⟩ := Option.isSome_iff_exists.mp hopen
  obtain ⟨block, controls, seg, low', es, rfl, hbase, habove⟩ := h.split
  obtain ⟨type', top, rest, kept, rfl, hkept⟩ := readOp_opens_stack rfl rfl hbase hopen hread
  exact .inside (habove rest block.polymorphicBase) rfl hkept

include h in
theorem above_changes (hopen : opens op = none) (hclose : op ≠ .Else ∧ op ≠ .End)
    (hread : readOp env locals it op = .ok it') : AboveAt type outer low saved elses kind depth it' := by
  obtain ⟨block, controls, seg, low', es, rfl, hbase, habove⟩ := h.split
  obtain ⟨seg', poly, rfl⟩ := readOp_changes hbase hopen hclose hread
  exact habove seg' poly

theorem above_end (h : AboveAt type outer low saved elses kind (depth + 1) it)
    (hread : readOp env locals it .End = .ok it') : AboveAt type outer low saved elses kind depth it' := by
  obtain ⟨valueStack, elseParamStack, controlStack⟩ := it
  unfold AboveAt at h
  simp only at h
  cases h with
  | @inside _ _ stack seg es kept controls block h hbase hkept =>
    obtain ⟨stack', hcheck, rfl, -⟩ := readEnd_stack rfl hread
    obtain ⟨top, rfl, -, -, -⟩ := checkStackAtEndOfBlock_full rfl hbase hcheck
    rw [drop_left' hkept]
    exact h.push (stackOf top)

theorem above_else (h : AboveAt type outer low saved elses kind (depth + 1) it)
    (hread : readOp env locals it .Else = .ok it') : AboveAt type outer low saved elses kind (depth + 1) it' := by
  obtain ⟨valueStack, elseParamStack, controlStack⟩ := it
  unfold AboveAt at h
  simp only at h
  cases h with
  | @inside _ _ stack seg es kept controls block h hbase hkept =>
    obtain ⟨hkind, rfl, -⟩ := readElse_stack rfl rfl hbase hread
    rw [if_pos hkind] at hkept
    simp only [drop_left' hkept]
    exact @Above.inside _ _ _ _ _ _ _ _ _ _ [] _ { block with kind := .Else, polymorphicBase := false } h hbase rfl

theorem above_else_here (h : AboveAt type outer low saved elses kind 0 it)
    (hread : readOp env locals it .Else = .ok it')
    : kind = .Then ∧ (saved.length = type.params.length
      → it' = ⟨saved ++ low, elses, ⟨.Else, type, low.length, false⟩ :: outer⟩) := by
  obtain ⟨valueStack, elseParamStack, controlStack⟩ := it
  cases h with
  | @here block seg htype hbase =>
    obtain ⟨hkind, rfl, -⟩ := readElse_stack rfl rfl hbase hread
    refine ⟨hkind, fun hsaved => ?_⟩
    simp [if_pos hkind, htype, hbase, take_left' hsaved, drop_left' hsaved]

open Execution

theorem afterEnd_opens (hopen : (opens op).isSome)
    : afterEnd depth (op :: ops) = afterEnd (depth + 1) ops ∧ afterElse depth (op :: ops) = afterElse (depth + 1) ops := by
  cases op with
  | Block code => exact ⟨rfl, rfl⟩
  | Loop code => exact ⟨rfl, rfl⟩
  | If code => exact ⟨rfl, rfl⟩
  | _ => contradiction

theorem afterEnd_other (hopen : opens op = none) (hclose : op ≠ .Else ∧ op ≠ .End)
    : afterEnd depth (op :: ops) = afterEnd depth ops ∧ afterElse depth (op :: ops) = afterElse depth ops := by
  cases op with
  | Block code => contradiction
  | Loop code => contradiction
  | If code => contradiction
  | Else => exact absurd rfl hclose.1
  | End => exact absurd rfl hclose.2
  | _ => exact ⟨by simp [afterEnd], by simp [afterElse]⟩

theorem above_cases (h : AboveAt type outer low saved elses kind depth it) (hread : readOp env locals it op = .ok it')
    (ops : List Op)
    : (∃ depth', AboveAt type outer low saved elses kind depth' it'
        ∧ afterEnd depth (op :: ops) = afterEnd depth' ops ∧ afterElse depth (op :: ops) = afterElse depth' ops)
      ∨ depth = 0 ∧ (op = .End ∨ op = .Else) := by
  by_cases hopen : (opens op).isSome
  . exact .inl ⟨depth + 1, above_opens h hopen hread, afterEnd_opens hopen⟩
  rw [Bool.not_eq_true, Option.isSome_eq_false_iff, Option.isNone_iff_eq_none] at hopen
  by_cases hend : op = .End
  . cases depth with
    | zero => exact .inr ⟨rfl, .inl hend⟩
    | succ depth =>
      subst hend
      exact .inl ⟨depth, above_end h hread, rfl, rfl⟩
  by_cases helse : op = .Else
  . cases depth with
    | zero => exact .inr ⟨rfl, .inr helse⟩
    | succ depth =>
      subst helse
      exact .inl ⟨depth + 1, above_else h hread, by simp [afterEnd], by simp [afterElse]⟩
  . exact .inl ⟨depth, above_changes h hopen ⟨helse, hend⟩ hread, afterEnd_other hopen ⟨helse, hend⟩⟩

theorem scan_end (h : AboveAt type outer low saved elses kind depth it)
    (hsaved : kind = .Then → saved.length = type.params.length) (hread : readOps env locals it ops = .ok final)
    (hfinal : final.controlStack = [])
    : ∃ mid it1 kind', ops = mid ++ .End :: afterEnd depth ops ∧ readOps env locals it mid = .ok it1
      ∧ AboveAt type outer low saved elses kind' 0 it1
      ∧ (kind' = kind ∨ kind' = .Else ∧ (afterElse depth ops).isSome) := by
  induction ops generalizing it depth kind with
  | nil =>
    cases hread
    obtain ⟨block, controls', seg, low', es, rfl, -⟩ := h.split
    contradiction
  | cons op ops ih =>
    obtain ⟨it', hop, hrest⟩ := readOps_cons.mp hread
    rcases above_cases h hop ops with ⟨depth', habove, hend, helse⟩ | ⟨rfl, rfl | rfl⟩
    . obtain ⟨mid, it1, kind', hops, hmid, habove, hkind⟩ := ih habove hsaved hrest
      rw [hend, helse]
      exact ⟨op :: mid, it1, kind', congrArg (op :: ·) hops, readOps_cons.mpr ⟨it', hop, hmid⟩, habove, hkind⟩
    . exact ⟨[], it, kind, rfl, rfl, h, .inl rfl⟩
    obtain ⟨hthen, hit'⟩ := above_else_here h hop
    obtain rfl := hit' (hsaved hthen)
    have habove : AboveAt type outer low saved elses .Else 0
        ⟨saved ++ low, elses, ⟨.Else, type, low.length, false⟩ :: outer⟩ :=
      @Above.here _ _ _ _ _ ⟨.Else, type, low.length, false⟩ _ rfl rfl
    obtain ⟨mid, it1, kind', hops, hmid, habove, hkind⟩ := ih habove nofun hrest
    refine ⟨.Else :: mid, it1, kind', ?_, readOps_cons.mpr ⟨_, hop, hmid⟩, habove, .inr ⟨?_, rfl⟩⟩
    . simp only [afterEnd]
      exact congrArg (Op.Else :: ·) hops
    . rcases hkind with hkind | ⟨hkind, -⟩ <;> exact hkind

theorem scan_else (h : AboveAt type outer low saved elses kind depth it)
    (hsaved : saved.length = type.params.length) (hread : readOps env locals it ops = .ok final)
    (harm : afterElse depth ops = some arm)
    : ∃ mid, ops = mid ++ .Else :: arm ∧ readOps env locals it (mid ++ [.Else])
        = .ok ⟨saved ++ low, elses, ⟨.Else, type, low.length, false⟩ :: outer⟩ := by
  induction ops generalizing it depth with
  | nil => contradiction
  | cons op ops ih =>
    obtain ⟨it', hop, hrest⟩ := readOps_cons.mp hread
    rcases above_cases h hop ops with ⟨depth', habove, -, helse⟩ | ⟨rfl, rfl | rfl⟩
    . rw [helse] at harm
      obtain ⟨mid, hops, hmid⟩ := ih habove hrest harm
      exact ⟨op :: mid, congrArg (op :: ·) hops, readOps_cons.mpr ⟨it', hop, hmid⟩⟩
    . contradiction
    cases harm
    refine ⟨[], rfl, readOps_cons.mpr ⟨it', hop, ?_⟩⟩
    rw [(above_else_here h hop).2 hsaved]
    rfl

end Scan

section Typed

open Execution

variable {V : Type} {typeOf : V → ValType} {i32 : V → Nat} {vs : List V} {stack : List StackType}

theorem Typed.mono (h : Typed env typeOf v s) (hle : StackType.Le env s t)
    : Typed env typeOf v t := by
  cases hle with
  | tvar => exact h.elim
  | val hsub => exact isSubtypeOf_trans h hsub

theorem typed_mono (h : List.Forall₂ (Typed env typeOf) vs ts)
    (hle : List.Forall₂ (StackType.Le env) ts ts') : List.Forall₂ (Typed env typeOf) vs ts' := by
  induction h generalizing ts' with
  | nil =>
    cases hle
    exact .nil
  | cons hv _ ih =>
    cases hle with
    | cons hst hle => exact .cons (Typed.mono hv hst) (ih hle)

theorem known_of_typed (h : List.Forall₂ (Typed env typeOf) vs ts) : ∃ types, ts = stackOf types := by
  have hmap : ∃ types : List ValType, ts = types.map .val := by
    induction h with
    | nil => exact ⟨[], rfl⟩
    | @cons v t _ _ hv _ ih =>
      obtain ⟨types, rfl⟩ := ih
      cases t with
      | tvar => exact hv.elim
      | val t => exact ⟨t :: types, rfl⟩
  obtain ⟨types, rfl⟩ := hmap
  exact ⟨types.reverse, by rw [← map_val_reverse, reverse_reverse]⟩

theorem typed_append (h : List.Forall₂ (Typed env typeOf) vs (ts ++ ts'))
    : ∃ vs1 vs2, vs = vs1 ++ vs2 ∧ List.Forall₂ (Typed env typeOf) vs1 ts ∧ List.Forall₂ (Typed env typeOf) vs2 ts' := by
  refine ⟨vs.take ts.length, vs.drop ts.length, (take_append_drop ..).symm, ?_, ?_⟩
  . have := forall₂_take ts.length h
    rwa [take_left' rfl] at this
  . have := forall₂_drop ts.length h
    rwa [drop_left' rfl] at this

theorem typed_stackOf {types : List ValType}
    : List.Forall₂ (Typed env typeOf) vs (stackOf types) ↔ HaveTypes env typeOf vs types := by
  rw [← map_val_reverse, forall₂_map_right_iff]
  rfl

section Reachable

variable (hpoly : block.polymorphicBase = false) (hbase : block.valueStackBase = low.length)
variable (htyped : List.Forall₂ (Typed env typeOf) vs (seg ++ low))

include hpoly hbase htyped in
theorem popThenPushType_typed (h : popThenPushType env block expected (seg ++ low) = .ok stack)
    : ∃ known rest, seg = stackOf known ++ rest ∧ stack = seg ++ low
      ∧ List.Forall₂ (isSubtypeOf env · · = true) known expected
      ∧ (¬MeetsStrict env block expected (seg ++ low) → List.Forall₂ (isSubtypeOf env · · = true) expected known) := by
  obtain ⟨types, rest, hstack, hle, hge, hfull⟩ := popThenPushType_full hbase h
  obtain ⟨top, hseg, htop⟩ := hfull rest (.self _ rest)
  have hseg := hseg.eq_of_false hpoly
  subst hseg
  rw [append_assoc] at htyped h ⊢
  obtain ⟨vs1, _, -, hvs1, -⟩ := typed_append htyped
  obtain ⟨known, rfl⟩ := known_of_typed hvs1
  have hbelow : block.valueStackBase ≤ (rest ++ low).length := by
    rw [hbase, length_append]
    exact Nat.le_add_left ..
  rw [le_stackOf_iff] at hle htop
  obtain ⟨hstack', hsub⟩ := (popThenPushType_known hbelow (htop.length_eq.trans hle.length_eq)).mp h
  have hlen : (stackOf types).length = (stackOf known).length := by
    rw [stackOf_length, stackOf_length, htop.length_eq]
  obtain ⟨heq, -⟩ := append_inj (hstack.symm.trans hstack') hlen
  refine ⟨known, rest, rfl, hstack', hsub, fun hstrict => ?_⟩
  rw [append_assoc] at hge
  rw [← le_stackOf_iff, ← heq]
  exact hge hstrict

include hpoly hbase in
theorem popWithType_typed (h : popWithType env block e (seg ++ low) = .ok stack)
    : ∃ t rest, seg = t :: rest ∧ stack = rest ++ low ∧ StackType.Le env t (.val e) := by
  obtain ⟨t, rest, rfl, hle, hfull⟩ := popWithType_full hbase h
  exact ⟨t, rest, ((hfull rest (.self _ rest)).eq_of_false hpoly).symm, rfl, hle⟩

end Reachable

end Typed

section Frames

open Execution

def Continues (env : ModuleEnvironment) (locals results : List ValType) (ops code : List Op)
    (controls : List Control) (low : List StackType) (types : List ValType) : Prop :=
  ∃ pre it known, ops = pre ++ code ∧ readOps env locals (readFunctionStart results) pre = .ok it
    ∧ it.controlStack = controls ∧ it.valueStack = stackOf known ++ low
    ∧ List.Forall₂ (isSubtypeOf env · · = true) types known

-- The labels of an execution and the blocks that are open, all of them reachable.
inductive Frames (env : ModuleEnvironment) (locals results : List ValType) (ops : List Op) :
    List Label → List Control → List StackType → Prop where
  | nil (stack : List StackType) : Frames env locals results ops [] [] stack
  | cons {label : Label} {labels : List Label} {block : Control} {controls : List Control} {low : List StackType}
    (seg : List StackType)
    : block.polymorphicBase = false → block.valueStackBase = low.length → label.height = low.length
      → label.arity = block.branchTargetType.length
      → (label.continuation = []
        ∨ Continues env locals results ops label.continuation controls low block.branchTargetType)
      → Frames env locals results ops labels controls low
      → Frames env locals results ops (label :: labels) (block :: controls) (seg ++ low)

variable {ops : List Op} {label : Label} {labels : List Label} {controls : List Control} {stack : List StackType}

theorem Frames.push (h : Frames env locals results ops labels controls stack) (top : List StackType)
    : Frames env locals results ops labels controls (top ++ stack) := by
  cases h with
  | nil => exact .nil _
  | cons seg hpoly hbase hheight harity hcontinues h =>
    rw [← append_assoc]
    exact .cons _ hpoly hbase hheight harity hcontinues h

theorem Frames.split (h : Frames env locals results ops labels (block :: outer) stack)
    : ∃ label labels' seg low, labels = label :: labels' ∧ stack = seg ++ low ∧ block.polymorphicBase = false
      ∧ block.valueStackBase = low.length
      ∧ (label.continuation = [] ∨ Continues env locals results ops label.continuation outer low block.branchTargetType)
      ∧ Frames env locals results ops labels' outer low
      ∧ ∀ seg', Frames env locals results ops labels (block :: outer) (seg' ++ low) := by
  cases h with
  | @cons label labels _ _ low seg hpoly hbase hheight harity hcontinues h =>
    exact ⟨label, labels, seg, low, rfl, rfl, hpoly, hbase, hcontinues, h,
      fun seg' => .cons seg' hpoly hbase hheight harity hcontinues h⟩

theorem Frames.branch {depth : Nat} {target : Control} (h : Frames env locals results ops labels controls stack)
    (htarget : controls[depth]? = some target) (hlabel : labels[depth]? = some label)
    : ∃ seg low, stack = seg ++ low ∧ label.height = low.length ∧ label.arity = target.branchTargetType.length
      ∧ (label.continuation = [] ∨ Continues env locals results ops label.continuation
        (controls.drop (depth + 1)) low target.branchTargetType)
      ∧ Frames env locals results ops (labels.drop (depth + 1)) (controls.drop (depth + 1)) low := by
  induction depth generalizing labels controls stack with
  | zero =>
    cases h with
    | nil => contradiction
    | @cons _ labels _ _ low seg hpoly hbase hheight harity hcontinues h =>
      cases htarget
      cases hlabel
      exact ⟨seg, low, rfl, hheight, harity, hcontinues, h⟩
  | succ depth ih =>
    cases h with
    | nil => contradiction
    | @cons _ labels _ controls low seg hpoly hbase hheight harity hcontinues h =>
      obtain ⟨seg', low', rfl, hbranch⟩ := ih h htarget hlabel
      exact ⟨seg ++ seg', low', (append_assoc ..).symm, hbranch⟩

end Frames

section Agrees

open Execution

variable {ops rest pre : List Op} {labels : List Label}

structure Accepted (env : ModuleEnvironment) (locals results : List ValType) (ops : List Op) : Prop where
  faithful : Faithful env locals (readFunctionStart results) ops
  read : ∃ final, readOps env locals (readFunctionStart results) ops = .ok final ∧ final.controlStack = []

theorem Accepted.next (h : Accepted env locals results ops) (hops : ops = pre ++ op :: rest)
    (hread : readOps env locals (readFunctionStart results) pre = .ok it)
    : ∃ it', readOp env locals it op = .ok it' ∧ readOps env locals (readFunctionStart results) (pre ++ [op]) = .ok it'
      ∧ ¬Strays env locals it op ∧ ∃ final, readOps env locals it' rest = .ok final ∧ final.controlStack = [] := by
  obtain ⟨final, hfinal, hnil⟩ := h.read
  rw [hops, readOps_append, bind_eq_ok] at hfinal
  obtain ⟨_, hpre, hfinal⟩ := hfinal
  rw [hread, Except.ok.injEq] at hpre
  subst hpre
  obtain ⟨it', hop, hrest⟩ := readOps_cons.mp hfinal
  refine ⟨it', hop, ?_, h.faithful pre op rest it hops hread, final, hrest, hnil⟩
  rw [readOps_concat, bind_eq_ok]
  exact ⟨it, hread, hop⟩

theorem continues_end {type : BlockType} {kind : LabelKind}
    (h : Accepted env locals results ops) (hops : ops = pre ++ rest)
    (hread : readOps env locals (readFunctionStart results) pre = .ok it)
    (habove : AboveAt type controls low saved elses kind 0 it)
    (hsaved : kind = .Then → saved.length = type.params.length) (hbody : kind ≠ .Body)
    : Continues env locals results ops (afterEnd 0 rest) controls low type.results
      ∧ (kind = .Then → afterElse 0 rest = none → type.params = type.results) := by
  obtain ⟨final, hfinal, hnil⟩ := h.read
  rw [hops, readOps_append, bind_eq_ok] at hfinal
  obtain ⟨_, hpre, hfinal⟩ := hfinal
  rw [hread, Except.ok.injEq] at hpre
  subst hpre
  obtain ⟨mid, it1, kind', hrest, hmid, habove, hkind⟩ := scan_end habove hsaved hfinal hnil
  have hread1 : readOps env locals (readFunctionStart results) (pre ++ mid) = .ok it1 := by
    rw [readOps_append, bind_eq_ok]
    exact ⟨it, hread, hmid⟩
  have hops1 : ops = (pre ++ mid) ++ .End :: afterEnd 0 rest := by
    rw [hops, append_assoc, ← hrest]
  obtain ⟨it2, hend, hread2, hstrays, -⟩ := h.next hops1 hread1
  obtain ⟨valueStack, elseParamStack, controlStack⟩ := it1
  cases habove with
  | @here block seg htype hbase =>
    obtain ⟨stack, hcheck, rfl, hthen⟩ := readEnd_stack rfl hend
    obtain ⟨types, rfl, -, hge, -⟩ := checkStackAtEndOfBlock_full rfl hbase hcheck
    have hbody' : block.kind ≠ .Body := by
      rcases hkind with hkind | ⟨hkind, -⟩
      . rw [hkind]
        exact hbody
      . rw [hkind]
        exact nofun
    refine ⟨⟨pre ++ mid ++ [.End], _, types, ?_, hread2, rfl, rfl, ?_⟩, fun hthen' hnone => ?_⟩
    . rw [append_assoc _ [Op.End]]
      exact hops1
    . rw [← le_stackOf_iff, ← htype]
      exact hge fun hmeets => hstrays ⟨block, controls, rfl, hbody', hmeets⟩
    rcases hkind with hkind | ⟨-, hsome⟩
    . rw [← htype]
      exact hthen (hkind.trans hthen')
    . rw [hnone] at hsome
      contradiction

variable {V : Type} {typeOf : V → ValType} {i32 : V → Nat} {c c' : Config V} {vs ls : List V}

theorem forall₂_getElem? {id : Nat} (h : List.Forall₂ (HasType env typeOf) ls locals)
    (hv : ls[id]? = some v) (ht : locals[id]? = some t) : HasType env typeOf v t := by
  rw [forall₂_iff_get] at h
  obtain ⟨hlt, rfl⟩ := List.getElem?_eq_some_iff.mp hv
  obtain ⟨hlt', rfl⟩ := List.getElem?_eq_some_iff.mp ht
  exact h.2 id hlt hlt'

theorem forall₂_set {id : Nat} (h : List.Forall₂ (HasType env typeOf) ls locals)
    (ht : locals[id]? = some t) (hv : HasType env typeOf v t) : List.Forall₂ (HasType env typeOf) (ls.set id v) locals := by
  induction h generalizing id with
  | nil => exact .nil
  | cons hw hls ih =>
    cases id with
    | zero =>
      cases ht
      exact .cons hv hls
    | succ id => exact .cons hw (ih ht)

structure Agrees (env : ModuleEnvironment) (locals results : List ValType) (ops : List Op) (typeOf : V → ValType)
    (c : Config V) (pre : List Op) (it : OpIter) : Prop where
  code : ops = pre ++ c.code
  read : readOps env locals (readFunctionStart results) pre = .ok it
  stackTyped : List.Forall₂ (Typed env typeOf) c.stack it.valueStack
  localsTyped : List.Forall₂ (HasType env typeOf) c.locals locals
  frames : Frames env locals results ops c.labels it.controlStack it.valueStack

-- An execution has come to its end, or to a place that the iterator has read.
def Goes (env : ModuleEnvironment) (locals results : List ValType) (ops : List Op) (typeOf : V → ValType)
    (c : Config V) : Prop :=
  c.code = [] ∨ ∃ pre it, Agrees env locals results ops typeOf c pre it

theorem Agrees.shape (h : Agrees env locals results ops typeOf ⟨op :: rest, vs, labels, ls⟩ pre it)
    (hread : readOp env locals it op = .ok it')
    : ∃ block outer seg low elses, it = ⟨seg ++ low, elses, block :: outer⟩ ∧ block.polymorphicBase = false
      ∧ block.valueStackBase = low.length ∧ List.Forall₂ (Typed env typeOf) vs (seg ++ low)
      ∧ ∀ seg', Frames env locals results ops labels (block :: outer) (seg' ++ low) := by
  have hframes := h.frames
  have htyped := h.stackTyped
  obtain ⟨valueStack, elses, controlStack⟩ := it
  cases controlStack with
  | nil => contradiction
  | cons block outer =>
    obtain ⟨_, _, seg, low, _, rfl, hpoly, hbase, -, -, hall⟩ := hframes.split
    exact ⟨block, outer, seg, low, elses, rfl, hpoly, hbase, htyped, hall⟩

theorem Agrees.open {kind : LabelKind} {code : BlockCode} (hacc : Accepted env locals results ops)
    (h : Agrees env locals results ops typeOf ⟨op :: rest, vs, labels, ls⟩ pre it)
    (hopen : opens op = some (kind, code))
    : ∃ type known low elses, readBlockType env code = .ok type
      ∧ readOps env locals (readFunctionStart results) (pre ++ [op])
        = .ok ⟨stackOf known ++ low, (if kind = .Then then stackOf known else []) ++ elses,
          ⟨kind, type, low.length, false⟩ :: it.controlStack⟩
      ∧ List.Forall₂ (isSubtypeOf env · · = true) known type.params
      ∧ (if kind = .Then then ∃ t, it.valueStack = t :: (stackOf known ++ low)
        else it.valueStack = stackOf known ++ low ∧ List.Forall₂ (isSubtypeOf env · · = true) type.params known)
      ∧ Frames env locals results ops labels it.controlStack low
      ∧ Continues env locals results ops (afterEnd 0 rest) it.controlStack low type.results
      ∧ (kind = .Then → afterElse 0 rest = none → type.params = type.results)
      ∧ (kind = .Then → ∀ arm, afterElse 0 rest = some arm → ∃ mid, rest = mid ++ .Else :: arm
        ∧ readOps env locals (readFunctionStart results) (pre ++ op :: (mid ++ [.Else]))
          = .ok ⟨stackOf known ++ low, elses, ⟨.Else, type, low.length, false⟩ :: it.controlStack⟩) := by
  obtain ⟨it', hop, hread', hstrays, final, hfinal, hnil⟩ := hacc.next h.code h.read
  obtain ⟨block, outer, seg, low, elses, rfl, hpoly, hbase, htyped, hframes⟩ := h.shape hop
  obtain ⟨type, stack, it1, htype, hstack, hpush, hit'⟩ := readOp_opens rfl hopen hop
  obtain ⟨seg1, hstack1, hseg1⟩ : ∃ seg1, stack = seg1 ++ low
      ∧ if kind = .Then then ∃ t, seg = t :: seg1 else seg = seg1 := by
    split at hstack
    next hthen =>
      obtain ⟨t, rest', hseg, hrest, -⟩ := popWithType_typed hpoly hbase hstack
      exact ⟨rest', hrest, by rw [if_pos hthen]; exact ⟨t, hseg⟩⟩
    next hthen => exact ⟨seg, hstack, by rw [if_neg hthen]⟩
  subst hstack1
  have htyped1 : ∃ vs1, List.Forall₂ (Typed env typeOf) vs1 (seg1 ++ low) := by
    split at hseg1
    next =>
      obtain ⟨t, rfl⟩ := hseg1
      cases htyped with
      | cons _ htyped => exact ⟨_, htyped⟩
    next =>
      subst hseg1
      exact ⟨vs, htyped⟩
  obtain ⟨vs1, htyped1⟩ := htyped1
  unfold pushControl at hpush
  rw [bind_eq_ok] at hpush
  obtain ⟨stack, hpop, hpush⟩ := hpush
  obtain ⟨known, rest', rfl, rfl, hsub, hge⟩ := popThenPushType_typed hpoly hbase htyped1 hpop
  have hlen : (stackOf known).length = type.params.length := (stackOf_length known).trans hsub.length_eq
  rw [append_assoc, length_append, ← hlen, Nat.add_sub_cancel_left] at hpush
  cases hpush
  rw [take_left' hlen] at hit'
  rw [hit'] at hread' hfinal
  have hops : ops = (pre ++ [op]) ++ rest := by
    rw [append_assoc]
    exact h.code
  have habove : AboveAt type (block :: outer) (rest' ++ low) (stackOf known) elses kind 0
      ⟨stackOf known ++ (rest' ++ low), (if kind = .Then then stackOf known else []) ++ elses,
        ⟨kind, type, (rest' ++ low).length, false⟩ :: block :: outer⟩ :=
    @Above.here _ _ _ _ _ ⟨kind, type, (rest' ++ low).length, false⟩ _ rfl rfl
  have hbody : kind ≠ .Body := by
    unfold opens at hopen
    split at hopen
    next => cases hopen; exact nofun
    next => cases hopen; exact nofun
    next => cases hopen; exact nofun
    next => contradiction
  obtain ⟨hcontinues, hnone⟩ := continues_end hacc hops hread' habove (fun _ => hlen) hbody
  refine ⟨type, known, rest' ++ low, elses, htype, hread', hsub, ?_, hframes rest', hcontinues, hnone,
    fun hthen arm harm => ?_⟩
  . split
    next hthen =>
      rw [if_pos hthen] at hseg1
      obtain ⟨t, rfl⟩ := hseg1
      exact ⟨t, by rw [cons_append, append_assoc]⟩
    next hthen =>
      rw [if_neg hthen] at hseg1
      subst hseg1
      refine ⟨by rw [append_assoc], hge fun hmeets => hstrays ⟨block, outer, rfl, ?_⟩⟩
      unfold opens at hopen
      split at hopen
      next => cases hopen; exact ⟨type, htype, hmeets⟩
      next => cases hopen; exact ⟨type, htype, hmeets⟩
      next => cases hopen; exact absurd rfl hthen
      next => contradiction
  . obtain ⟨mid, hrest, hmid⟩ := scan_else habove hlen hfinal harm
    refine ⟨mid, hrest, ?_⟩
    rw [append_cons, readOps_append, bind_eq_ok]
    exact ⟨_, hread', hmid⟩

section Step

variable (hacc : Accepted env locals results ops) {label : Label}

include hacc in
theorem Agrees.cases (h : Agrees env locals results ops typeOf ⟨op :: rest, vs, labels, ls⟩ pre it)
    : ∃ it' block outer seg low elses, readOp env locals it op = .ok it'
      ∧ readOps env locals (readFunctionStart results) (pre ++ [op]) = .ok it'
      ∧ it = ⟨seg ++ low, elses, block :: outer⟩ ∧ block.polymorphicBase = false
      ∧ block.valueStackBase = low.length ∧ List.Forall₂ (Typed env typeOf) vs (seg ++ low)
      ∧ ∀ seg', Frames env locals results ops labels (block :: outer) (seg' ++ low) := by
  obtain ⟨it', hop, hread', -, -⟩ := hacc.next h.code h.read
  obtain ⟨block, outer, seg, low, elses, hit, hcases⟩ := h.shape hop
  exact ⟨it', block, outer, seg, low, elses, hop, hread', hit, hcases⟩

theorem Agrees.step
    (h : Agrees env locals results ops typeOf ⟨op :: rest, vs, labels, ls⟩ pre it) (seg' : List StackType)
    (hread : readOps env locals (readFunctionStart results) (pre ++ [op]) = .ok ⟨seg' ++ low, elses, block :: outer⟩)
    (hframes : Frames env locals results ops labels (block :: outer) (seg' ++ low))
    (htyped : List.Forall₂ (Typed env typeOf) vs' (seg' ++ low)) (hls : List.Forall₂ (HasType env typeOf) ls' locals)
    : Goes env locals results ops typeOf ⟨rest, vs', labels, ls'⟩ := by
  refine .inr ⟨pre ++ [op], _, ?_, hread, htyped, hls, hframes⟩
  rw [append_assoc]
  exact h.code

include hacc in
theorem agrees_fixed {args vs' : List V}
    (h : Agrees env locals results ops typeOf ⟨op :: rest, args ++ vs, labels, ls⟩ pre it)
    (hop : ∀ block outer, it.controlStack = block :: outer
      → readOp env locals it op = readFixed env it block operandTypes resultTypes)
    (hargs : args.length = operandTypes.length) (hresults : HaveTypes env typeOf vs' resultTypes)
    : Goes env locals results ops typeOf ⟨rest, vs' ++ vs, labels, ls⟩ := by
  obtain ⟨it', block, outer, seg, low, elses, hread, hread', rfl, hpoly, hbase, htyped, hframes⟩ := h.cases hacc
  rw [hop block outer rfl] at hread
  obtain ⟨top, rest', rfl, hle, hfull⟩ := readFixed_full rfl hbase hread
  obtain rfl := (hfull rest' (.self _ rest')).eq_of_false hpoly
  have hlen := hle.length_eq
  rw [stackOf_length, ← hargs] at hlen
  rw [append_assoc] at htyped
  obtain ⟨vs1, vs2, heq, hvs1, hvs2⟩ := typed_append htyped
  obtain ⟨rfl, rfl⟩ := append_inj heq (hlen.symm.trans hvs1.length_eq.symm)
  refine h.step _ hread' (hframes _) ?_ h.localsTyped
  rw [append_assoc]
  exact rel_append (typed_stackOf.mpr hresults) hvs2

theorem agrees_branch {depth : Nat} {target : Control} {known : List ValType}
    {below : List StackType} (hvs : List.Forall₂ (Typed env typeOf) vs (stackOf known ++ below))
    (hls : List.Forall₂ (HasType env typeOf) ls locals)
    (hframes : Frames env locals results ops labels controls (stackOf known ++ below))
    (htarget : controls[depth]? = some target) (hlabel : labels[depth]? = some label)
    (hknown : List.Forall₂ (isSubtypeOf env · · = true) known target.branchTargetType)
    : Goes env locals results ops typeOf (branch ⟨rest, vs, labels, ls⟩ depth label) := by
  obtain ⟨seg, low, hstack, hheight, harity, hcontinues, hframes⟩ := hframes.branch htarget hlabel
  refine hcontinues.imp id ?_
  rintro ⟨pre', it', known', hcode, hread, hcontrols, hvalue, hsub⟩
  refine ⟨pre', it', hcode, hread, ?_, hls, ?_⟩
  . unfold branch
    rw [hvalue]
    have hlen : label.arity = (stackOf known).length := by
      rw [harity, stackOf_length, hknown.length_eq]
    have htop := forall₂_take label.arity hvs
    rw [take_left' hlen.symm] at htop
    have hlength := hvs.length_eq
    rw [hstack] at hvs hlength
    have hlow := forall₂_drop (vs.length - label.height) hvs
    rw [drop_left' (by rw [hlength, hheight, length_append, Nat.add_sub_cancel])] at hlow
    refine rel_append (typed_mono htop ?_) hlow
    rw [le_stackOf_iff]
    exact le_stackOf_iff.mp (le_trans_all (le_stackOf_iff.mpr hknown) (le_stackOf_iff.mpr hsub))
  . unfold branch
    rw [hcontrols, hvalue]
    exact hframes.push _

include hacc in
theorem agrees_br {depth : Nat} (h : Agrees env locals results ops typeOf ⟨.Br depth :: rest, vs, labels, ls⟩ pre it)
    (hlabel : labels[depth]? = some label)
    : Goes env locals results ops typeOf (branch ⟨rest, vs, labels, ls⟩ depth label) := by
  obtain ⟨it', block, outer, seg, low, elses, hread, -, rfl, hpoly, hbase, htyped, hframes⟩ := h.cases hacc
  obtain ⟨stack, hcheck, -⟩ := bind_eq_ok.mp hread
  obtain ⟨target, htarget, hpop⟩ := bind_eq_ok.mp hcheck
  rw [getControl_eq_ok] at htarget
  obtain ⟨known, rest', rfl, -, hknown, -⟩ := popThenPushType_typed hpoly hbase htyped hpop
  have hframes := hframes (stackOf known ++ rest')
  rw [append_assoc] at htyped hframes
  exact agrees_branch htyped h.localsTyped hframes htarget hlabel hknown

include hacc in
theorem readBrIf_typed {depth : Nat}
    (h : Agrees env locals results ops typeOf ⟨.BrIf depth :: rest, v :: vs, labels, ls⟩ pre it)
    : ∃ block outer target known below, (block :: outer)[depth]? = some target
      ∧ readOps env locals (readFunctionStart results) (pre ++ [.BrIf depth])
        = .ok ⟨stackOf known ++ below, it.elseParamStack, block :: outer⟩
      ∧ List.Forall₂ (Typed env typeOf) vs (stackOf known ++ below)
      ∧ Frames env locals results ops labels (block :: outer) (stackOf known ++ below)
      ∧ List.Forall₂ (isSubtypeOf env · · = true) known target.branchTargetType := by
  obtain ⟨it', block, outer, seg, low, elses, hread, hread', rfl, hpoly, hbase, htyped, hframes⟩ := h.cases hacc
  obtain ⟨stack, hpop, hread⟩ := bind_eq_ok.mp hread
  obtain ⟨t, seg1, rfl, rfl, -⟩ := popWithType_typed hpoly hbase hpop
  obtain ⟨stack, hcheck, hread⟩ := bind_eq_ok.mp hread
  obtain ⟨target, htarget, hpop⟩ := bind_eq_ok.mp hcheck
  rw [getControl_eq_ok] at htarget
  cases htyped with
  | cons _ htyped =>
    have htyped : List.Forall₂ (Typed env typeOf) vs (seg1 ++ low) := htyped
    obtain ⟨known, rest', rfl, rfl, hknown, -⟩ := popThenPushType_typed hpoly hbase htyped hpop
    cases hread
    have hframes := hframes (stackOf known ++ rest')
    rw [append_assoc] at htyped hframes hread'
    exact ⟨block, outer, target, known, rest' ++ low, htarget, hread', htyped, hframes, hknown⟩

include hacc in
theorem agrees_brTable {defaultDepth depth : Nat}
    (h : Agrees env locals results ops typeOf ⟨.BrTable depths defaultDepth :: rest, v :: vs, labels, ls⟩ pre it)
    (hdepth : depth ∈ depths ++ [defaultDepth]) (hlabel : labels[depth]? = some label)
    : Goes env locals results ops typeOf (branch ⟨rest, vs, labels, ls⟩ depth label) := by
  obtain ⟨it', block, outer, seg, low, elses, hread, -, rfl, hpoly, hbase, htyped, hframes⟩ := h.cases hacc
  obtain ⟨s, types, rest', -, -, -, hlabels, hfull⟩ := readBrTable_full rfl hbase hread
  obtain ⟨top, hseg, htop⟩ := hfull rest' (.self _ rest')
  obtain rfl := hseg.eq_of_false hpoly
  cases htyped with
  | cons _ htyped =>
    have htyped : List.Forall₂ (Typed env typeOf) vs (top ++ rest' ++ low) := htyped
    have hframes := hframes (top ++ rest')
    rw [append_assoc] at htyped hframes
    obtain ⟨vs1, vs2, -, hvs1, -⟩ := typed_append htyped
    obtain ⟨known, rfl⟩ := known_of_typed hvs1
    obtain ⟨target, htarget, hsub⟩ := hlabels depth hdepth
    have hknown := le_stackOf_iff.mp (le_trans_all htop (le_stackOf_iff.mpr hsub))
    exact agrees_branch htyped h.localsTyped hframes htarget hlabel hknown

theorem Frames.length_eq {labels : List Label} {stack : List StackType}
    (h : Frames env locals results ops labels controls stack) : labels.length = controls.length := by
  induction h with
  | nil => rfl
  | cons _ _ _ _ _ _ _ ih => rw [length_cons, length_cons, ih]

include hacc in
theorem agrees_return (h : Agrees env locals results ops typeOf ⟨.Return :: rest, vs, labels, ls⟩ pre it)
    (hlabel : labels.getLast? = some label)
    : Goes env locals results ops typeOf (branch ⟨rest, vs, labels, ls⟩ (labels.length - 1) label) := by
  obtain ⟨it', block, outer, seg, low, elses, hread, -, rfl, hpoly, hbase, htyped, hframes⟩ := h.cases hacc
  have hlast : (block :: outer).getLast? = some ((block :: outer).getLast (cons_ne_nil block outer)) :=
    List.getLast?_eq_some_getLast _
  have hkind : ((block :: outer).getLast (cons_ne_nil block outer)).kind ≠ .Loop := by
    have hfaithful := hacc.faithful
    rw [h.code] at hfaithful
    rcases readOps_partial hfaithful.left h.read with hpartial | ⟨hnil, -⟩
    . unfold PartialAt at hpartial
      obtain ⟨body, hbody, -, hkind⟩ := hpartial.getLast
      rw [hlast, Option.some.injEq] at hbody
      rw [hbody]
      exact hkind
    . contradiction
  obtain ⟨top, rest', -, hle, hfull⟩ := readReturn_full rfl hbase hread
  obtain rfl := (hfull rest' (.self _ rest')).eq_of_false hpoly
  have hframes := hframes (top ++ rest')
  rw [append_assoc] at htyped hframes
  obtain ⟨vs1, vs2, -, hvs1, -⟩ := typed_append htyped
  obtain ⟨known, rfl⟩ := known_of_typed hvs1
  rw [le_stackOf_iff, ← branchTargetType_of_kind hkind] at hle
  rw [List.getLast?_eq_getElem?] at hlabel hlast
  rw [← hframes.length_eq] at hlast
  exact agrees_branch htyped h.localsTyped hframes hlast hlabel hle

include hacc in
theorem agrees_drop (h : Agrees env locals results ops typeOf ⟨.Drop :: rest, v :: vs, labels, ls⟩ pre it)
    : Goes env locals results ops typeOf ⟨rest, vs, labels, ls⟩ := by
  obtain ⟨it', block, outer, seg, low, elses, hread, hread', rfl, hpoly, hbase, htyped, hframes⟩ := h.cases hacc
  obtain ⟨⟨t, stack⟩, hpop, hread⟩ := bind_eq_ok.mp hread
  obtain ⟨rest', rfl, hfull⟩ := popStackType_full hbase hpop
  obtain rfl := (hfull rest' (.self _ rest')).eq_of_false hpoly
  cases hread
  cases htyped with
  | cons _ htyped => exact h.step rest' hread' (hframes rest') htyped h.localsTyped

theorem typed_select {c falseValue trueValue v : V} {stack : List StackType}
    (hv : v = falseValue ∨ v = trueValue)
    (h : List.Forall₂ (Typed env typeOf) (c :: falseValue :: trueValue :: vs) (s :: falseType :: trueType :: stack))
    (hfalse : StackType.Le env falseType t) (htrue : StackType.Le env trueType t)
    : List.Forall₂ (Typed env typeOf) (v :: vs) (t :: stack) := by
  cases h with
  | cons _ h =>
    cases h with
    | cons hfalse' h =>
      cases h with
      | cons htrue' h =>
        refine .cons ?_ h
        rcases hv with rfl | rfl
        . exact Typed.mono hfalse' hfalse
        . exact Typed.mono htrue' htrue

include hacc in
theorem agrees_select {c falseValue trueValue v : V} (hv : v = falseValue ∨ v = trueValue)
    (h : Agrees env locals results ops typeOf ⟨.Select :: rest, c :: falseValue :: trueValue :: vs, labels, ls⟩ pre it)
    : Goes env locals results ops typeOf ⟨rest, v :: vs, labels, ls⟩ := by
  obtain ⟨it', block, outer, seg, low, elses, hread, hread', rfl, hpoly, hbase, htyped, hframes⟩ := h.cases hacc
  obtain ⟨s, falseType, trueType, t, rest', -, -, hfalse, htrue, hfull, rfl⟩ := readSelect_full rfl hbase hread
  obtain rfl := (hfull rest' (.self _ rest')).eq_of_false hpoly
  exact h.step (t :: rest') hread' (hframes _) (typed_select hv htyped hfalse htrue) h.localsTyped

include hacc in
theorem agrees_selectTyped {types : List ValType} {c falseValue trueValue v : V}
    (hv : v = falseValue ∨ v = trueValue) (h : Agrees env locals results ops typeOf
      ⟨.SelectTyped types :: rest, c :: falseValue :: trueValue :: vs, labels, ls⟩ pre it)
    : Goes env locals results ops typeOf ⟨rest, v :: vs, labels, ls⟩ := by
  obtain ⟨it', block, outer, seg, low, elses, hread, hread', rfl, hpoly, hbase, htyped, hframes⟩ := h.cases hacc
  obtain ⟨result, top, rest', rfl, rfl, hle, hfull⟩ := readSelectTyped_full rfl hbase hread
  obtain rfl := (hfull rest' (.self _ rest')).eq_of_false hpoly
  cases hle with
  | cons _ hle =>
    cases hle with
    | cons hfalse hle =>
      cases hle with
      | cons htrue hle =>
        cases hle
        exact h.step (.val result :: rest') hread' (hframes _) (typed_select hv htyped hfalse htrue) h.localsTyped

include hacc in
theorem agrees_getLocal {id : Nat} (hv : ls[id]? = some v)
    (h : Agrees env locals results ops typeOf ⟨.GetLocal id :: rest, vs, labels, ls⟩ pre it)
    : Goes env locals results ops typeOf ⟨rest, v :: vs, labels, ls⟩ := by
  obtain ⟨it', block, outer, seg, low, elses, hread, hread', rfl, hpoly, hbase, htyped, hframes⟩ := h.cases hacc
  obtain ⟨t, ht, hread⟩ := bind_eq_ok.mp hread
  rw [getLocalType_eq_ok] at ht
  cases hread
  have htype : HasType env typeOf v t := forall₂_getElem? h.localsTyped hv ht
  exact h.step (.val t :: seg) hread' (hframes _) (.cons htype htyped) h.localsTyped

include hacc in
theorem agrees_setLocal {id : Nat}
    (h : Agrees env locals results ops typeOf ⟨.SetLocal id :: rest, v :: vs, labels, ls⟩ pre it)
    : Goes env locals results ops typeOf ⟨rest, vs, labels, ls.set id v⟩ := by
  obtain ⟨it', block, outer, seg, low, elses, hread, hread', rfl, hpoly, hbase, htyped, hframes⟩ := h.cases hacc
  obtain ⟨t, ht, hread⟩ := bind_eq_ok.mp hread
  rw [getLocalType_eq_ok] at ht
  obtain ⟨top, rest', rfl, hle, hfull⟩ := readFixed_full rfl hbase hread
  obtain rfl := (hfull rest' (.self _ rest')).eq_of_false hpoly
  cases hle with
  | cons hle hnil =>
    cases hnil
    cases htyped with
    | cons hv htyped =>
      have htype : HasType env typeOf v t := Typed.mono hv hle
      exact h.step rest' hread' (hframes rest') htyped (forall₂_set h.localsTyped ht htype)

include hacc in
theorem agrees_teeLocal {id : Nat}
    (h : Agrees env locals results ops typeOf ⟨.TeeLocal id :: rest, v :: vs, labels, ls⟩ pre it)
    : Goes env locals results ops typeOf ⟨rest, v :: vs, labels, ls.set id v⟩ := by
  obtain ⟨it', block, outer, seg, low, elses, hread, hread', rfl, hpoly, hbase, htyped, hframes⟩ := h.cases hacc
  obtain ⟨t, ht, hread⟩ := bind_eq_ok.mp hread
  rw [getLocalType_eq_ok] at ht
  obtain ⟨stack, hpop, hread⟩ := bind_eq_ok.mp hread
  obtain ⟨known, rest', rfl, rfl, hsub, -⟩ := popThenPushType_typed hpoly hbase htyped hpop
  cases hread
  have htype : HasType env typeOf v t := by
    cases hsub with
    | cons hsub hnil =>
      cases hnil
      cases htyped with
      | cons hv _ => exact isSubtypeOf_trans hv hsub
  exact h.step _ hread' (hframes _) htyped (forall₂_set h.localsTyped ht htype)

include hacc in
theorem agrees_else (h : Agrees env locals results ops typeOf ⟨.Else :: rest, vs, label :: labels, ls⟩ pre it)
    : Goes env locals results ops typeOf ⟨label.continuation, vs, labels, ls⟩ := by
  obtain ⟨it', block, outer, seg, low, elses, hread, -, rfl, hpoly, hbase, htyped, hframes⟩ := h.cases hacc
  obtain ⟨hkind, -, stack, hcheck⟩ := readElse_stack rfl rfl hbase hread
  obtain ⟨types, rfl, hle, -, ts, hts, hle'⟩ := checkStackAtEndOfBlock_full rfl hbase hcheck
  obtain rfl := hts.eq_of_false hpoly
  obtain ⟨_, _, seg', low', heq, hlow, -, hbase', hcontinues, hframes, -⟩ := (hframes ts).split
  cases heq
  obtain ⟨-, rfl⟩ := append_inj' hlow (hbase.symm.trans hbase')
  refine hcontinues.imp id ?_
  rintro ⟨pre', it1, known, hcode, hread, hcontrols, hvalue', hsub⟩
  rw [branchTargetType_of_kind (by rw [hkind]; exact nofun)] at hsub
  have htop := le_trans_all hle' (le_trans_all hle (le_stackOf_iff.mpr hsub))
  refine ⟨pre', it1, hcode, hread, ?_, h.localsTyped, ?_⟩
  . rw [hvalue']
    exact typed_mono htyped (rel_append htop (le_refl_all env low))
  . rw [hvalue', hcontrols]
    exact hframes.push _

include hacc in
theorem agrees_end (h : Agrees env locals results ops typeOf ⟨.End :: rest, vs, label :: labels, ls⟩ pre it)
    : Goes env locals results ops typeOf ⟨rest, vs, labels, ls⟩ := by
  obtain ⟨it', block, outer, seg, low, elses, hread, hread', rfl, hpoly, hbase, htyped, hframes⟩ := h.cases hacc
  obtain ⟨stack, hcheck, rfl, -⟩ := readEnd_stack rfl hread
  obtain ⟨types, rfl, -, -, ts, hts, hle⟩ := checkStackAtEndOfBlock_full rfl hbase hcheck
  obtain rfl := hts.eq_of_false hpoly
  obtain ⟨_, _, seg', low', heq, hlow, -, hbase', -, hframes, -⟩ := (hframes ts).split
  cases heq
  obtain ⟨-, rfl⟩ := append_inj' hlow (hbase.symm.trans hbase')
  refine .inr ⟨pre ++ [.End], _, ?_, hread', ?_, h.localsTyped, hframes.push _⟩
  . rw [append_assoc]
    exact h.code
  . exact typed_mono htyped (rel_append hle (le_refl_all env low))

include hacc in
theorem agrees_enter {kind : LabelKind} {code : BlockCode} {type : BlockType} {arity height : Nat}
    {continuation : List Op}
    (h : Agrees env locals results ops typeOf ⟨op :: rest, vs, labels, ls⟩ pre it)
    (hopen : opens op = some (kind, code)) (hthen : kind ≠ .Then) (htype : readBlockType env code = .ok type)
    (harity : arity = if kind = .Loop then type.params.length else type.results.length)
    (hheight : height = vs.length - type.params.length)
    (hcontinuation : continuation = if kind = .Loop then op :: rest else afterEnd 0 rest)
    : Goes env locals results ops typeOf ⟨rest, vs, ⟨arity, height, continuation⟩ :: labels, ls⟩ := by
  obtain ⟨type', known, low, elses, htype', hread, hsub, hvalue, hframes, hcontinues, -, -⟩ := h.open hacc hopen
  rw [htype, Except.ok.injEq] at htype'
  subst htype'
  rw [if_neg hthen] at hvalue
  obtain ⟨hvalue, hge⟩ := hvalue
  have htyped : List.Forall₂ (Typed env typeOf) vs it.valueStack := h.stackTyped
  rw [hvalue] at htyped
  have hlen : vs.length - type.params.length = low.length := by
    have hlength := htyped.length_eq
    rw [length_append, stackOf_length, hsub.length_eq] at hlength
    omega
  refine .inr ⟨pre ++ [op], _, ?_, hread, htyped, h.localsTyped, .cons _ rfl rfl (hheight.trans hlen) ?_ ?_ hframes⟩
  . rw [append_assoc]
    exact h.code
  . rw [harity]
    unfold Control.branchTargetType
    split <;> rfl
  unfold Control.branchTargetType
  rw [hcontinuation]
  split
  next => exact .inr ⟨pre, it, known, h.code, h.read, rfl, hvalue, hge⟩
  next => exact .inr hcontinues

include hacc in
theorem agrees_if {code : BlockCode} {type : BlockType} {c : V}
    (h : Agrees env locals results ops typeOf ⟨.If code :: rest, c :: vs, labels, ls⟩ pre it)
    (htype : readBlockType env code = .ok type) (harm : arm = rest ∨ afterElse 0 rest = some arm)
    : Goes env locals results ops typeOf ⟨arm, vs,
      ⟨type.results.length, vs.length - type.params.length, afterEnd 0 rest⟩ :: labels, ls⟩ := by
  obtain ⟨type', known, low, elses, htype', hread, hsub, hvalue, hframes, hcontinues, -, helse⟩ := h.open hacc rfl
  rw [htype, Except.ok.injEq] at htype'
  subst htype'
  obtain ⟨t, hvalue⟩ := hvalue
  have htyped := h.stackTyped
  rw [hvalue] at htyped
  cases htyped with
  | cons _ htyped =>
    have hlen : vs.length - type.params.length = low.length := by
      have hlength := htyped.length_eq
      rw [length_append, stackOf_length, hsub.length_eq] at hlength
      omega
    rcases harm with rfl | harm
    . refine .inr ⟨pre ++ [.If code], _, ?_, hread, htyped, h.localsTyped, .cons _ rfl rfl hlen rfl (.inr hcontinues) hframes⟩
      rw [append_assoc]
      exact h.code
    obtain ⟨mid, hrest, hread⟩ := helse rfl arm harm
    refine .inr ⟨pre ++ .If code :: (mid ++ [.Else]), _, ?_, hread, htyped, h.localsTyped,
      .cons _ rfl rfl hlen rfl (.inr hcontinues) hframes⟩
    rw [append_assoc, cons_append, append_assoc, singleton_append, ← hrest]
    exact h.code

include hacc in
theorem agrees_ifEnd {code : BlockCode} {c : V} (hnone : afterElse 0 rest = none)
    (h : Agrees env locals results ops typeOf ⟨.If code :: rest, c :: vs, labels, ls⟩ pre it)
    : Goes env locals results ops typeOf ⟨afterEnd 0 rest, vs, labels, ls⟩ := by
  obtain ⟨type, known, low, elses, -, -, hsub, hvalue, hframes, hcontinues, heq, -⟩ := h.open hacc rfl
  obtain ⟨t, hvalue⟩ := hvalue
  have htyped := h.stackTyped
  rw [hvalue] at htyped
  cases htyped with
  | cons _ htyped =>
    obtain ⟨pre', it', known', hcode, hread, hcontrols, hvalue', hsub'⟩ := hcontinues
    rw [heq rfl hnone] at hsub
    have htop := le_trans_all (le_stackOf_iff.mpr hsub) (le_stackOf_iff.mpr hsub')
    refine .inr ⟨pre', it', hcode, hread, ?_, h.localsTyped, ?_⟩
    . rw [hvalue']
      exact typed_mono htyped (rel_append htop (le_refl_all env low))
    . rw [hvalue', hcontrols]
      exact hframes.push _

include hacc in
theorem agrees_step (h : Agrees env locals results ops typeOf c pre it) (hstep : Step env typeOf i32 c c')
    : Goes env locals results ops typeOf c' := by
  cases hstep with
  | block htype => exact agrees_enter hacc h rfl nofun htype rfl rfl rfl
  | loop htype => exact agrees_enter hacc h rfl nofun htype rfl rfl rfl
  | ifThen htype _ => exact agrees_if hacc h htype (.inl rfl)
  | ifElse htype _ harm => exact agrees_if hacc h htype (.inr harm)
  | ifEnd _ hnone => exact agrees_ifEnd hacc hnone h
  | «else» => exact agrees_else hacc h
  | «end» => exact agrees_end hacc h
  | br hlabel => exact agrees_br hacc h hlabel
  | brIfTaken _ hlabel =>
    obtain ⟨block, outer, target, known, below, htarget, -, htyped, hframes, hknown⟩ := readBrIf_typed hacc h
    exact agrees_branch htyped h.localsTyped hframes htarget hlabel hknown
  | brIfNot =>
    obtain ⟨block, outer, target, known, below, -, hread, htyped, hframes, -⟩ := readBrIf_typed hacc h
    exact h.step _ hread hframes htyped h.localsTyped
  | brTable hlabel =>
    refine agrees_brTable hacc h ?_ hlabel
    rw [mem_append, mem_singleton]
    rename_i depths defaultDepth _ v _ _ _ _
    cases hdepth : depths[i32 v]? with
    | none => exact .inr rfl
    | some depth => exact .inl (mem_of_getElem? hdepth)
  | «return» hlabel => exact agrees_return hacc h hlabel
  | drop => exact agrees_drop hacc h
  | select =>
    refine agrees_select hacc ?_ h
    split
    next => exact .inl rfl
    next => exact .inr rfl
  | selectTyped =>
    refine agrees_selectTyped hacc ?_ h
    split
    next => exact .inl rfl
    next => exact .inr rfl
  | getLocal hv => exact agrees_getLocal hacc hv h
  | setLocal => exact agrees_setLocal hacc h
  | teeLocal => exact agrees_teeLocal hacc h
  | call hfunc hargs hresults =>
    refine agrees_fixed hacc h (fun block outer hcontrol => ?_) hargs hresults
    unfold readOp
    rw [hcontrol]
    simp only []
    rw [hfunc]
  | fixed hargs hresults =>
    refine agrees_fixed hacc h (fun block outer hcontrol => ?_) hargs hresults
    unfold readOp
    rw [hcontrol]

include hacc in
theorem goes_run {values : List V} (hvalues : List.Forall₂ (HasType env typeOf) values locals)
    (hrun : Relation.ReflTransGen (Step env typeOf i32) (start results ops values) c)
    : Goes env locals results ops typeOf c := by
  induction hrun with
  | refl =>
    refine .inr ⟨[], readFunctionStart results, rfl, rfl, .nil, hvalues, ?_⟩
    exact .cons [] rfl rfl rfl rfl (.inl rfl) (.nil [])
  | tail _ hstep ih =>
    rcases ih with hnil | ⟨pre, it, h⟩
    . cases hstep <;> contradiction
    . exact agrees_step hacc h hstep

include hacc in
theorem recordsTypes_of_accepted : RecordsTypes env locals results ops := by
  intro V typeOf i32 values hvalues c hrun hne
  rcases goes_run hacc hvalues hrun with hnil | ⟨pre, it, h⟩
  . exact absurd hnil hne
  . exact ⟨pre, it, h.code, h.read, h.stackTyped⟩

end Step

end Agrees

end OpIter

end SpiderMonkey.Wasm
