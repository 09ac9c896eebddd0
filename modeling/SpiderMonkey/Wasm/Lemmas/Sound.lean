import SpiderMonkey.Wasm.Lemmas.OpIter
import Mathlib.Data.List.Induction

/-!
This module contains the derivation of what the iterator accepts, from the state after each operator.
-/

namespace SpiderMonkey.Wasm

namespace OpIter

open List

-- The iterator goes on with the type of an operand where the block, the branch or the local has a strictly
-- greater one, or it settles a missing operand of a `br_table` by the label that is listed first.
def Strays (env : ModuleEnvironment) (locals : List ValType) (it : OpIter) (op : Op) : Prop :=
  ∃ block outer, it.controlStack = block :: outer ∧ match op with
    | .Block code | .Loop code => ∃ type, readBlockType env code = .ok type
      ∧ MeetsStrict env block type.params it.valueStack
    | .If code => ∃ type stack, readBlockType env code = .ok type
      ∧ popWithType env block .I32 it.valueStack = .ok stack ∧ MeetsStrict env block type.params stack
    | .End => block.kind ≠ .Body ∧ MeetsStrict env block block.type.results it.valueStack
    | .BrIf depth => ∃ target stack, it.controlStack[depth]? = some target
      ∧ popWithType env block .I32 it.valueStack = .ok stack
      ∧ MeetsStrict env block target.branchTargetType stack
    | .BrTable depths defaultDepth => (block.polymorphicBase = true ∨ .tvar ∈ it.valueStack)
      ∧ ∃ depth ∈ depths ++ [defaultDepth], ∃ depth' ∈ depths ++ [defaultDepth], ∃ target target',
        it.controlStack[depth]? = some target ∧ it.controlStack[depth']? = some target'
        ∧ ∃ x ∈ target.branchTargetType.zip target'.branchTargetType, ∃ t,
          isSubtypeOf env t x.1 = true ∧ isSubtypeOf env t x.2 = true ∧ isSubtypeOf env x.1 x.2 = false
    | .TeeLocal id => ∃ t, locals[id]? = some t ∧ MeetsStrict env block [t] it.valueStack
    | _ => False

def labelsOf (controlStack : List Control) : List (List ValType) :=
  controlStack.map Control.branchTargetType

section

variable {env : ModuleEnvironment} {locals results : List ValType}

-- What has been derived when the iterator has got to a state.
inductive Partial (env : ModuleEnvironment) (locals results : List ValType) :
    List Op → List Control → List StackType → List StackType → Prop where
  | body {block : Control} {ops : List Op} {seg : List StackType}
    : block.kind = .Body → block.type = ⟨[], results⟩ → block.valueStackBase = 0
      → (∀ ts, Full block.polymorphicBase seg ts → Derives env locals [results] ops [] ts)
      → Partial env locals results ops [block] seg []
  | nested {block : Control} {outer : List Control} {ops inner : List Op} {op : Op} {code : BlockCode}
    {seg params low elseParams : List StackType}
    : Partial env locals results ops outer (params ++ low) elseParams
      → (op = .Block code ∧ block.kind = .Block ∨ op = .Loop code ∧ block.kind = .Loop)
      → readBlockType env code = .ok block.type → block.valueStackBase = low.length
      → (∀ c ∈ outer.head?, c.valueStackBase ≤ low.length)
      → List.Forall₂ (StackType.Le env) params (stackOf block.type.params)
      → (∀ ts, Full block.polymorphicBase seg ts
        → Derives env locals (block.branchTargetType :: labelsOf outer) inner (stackOf block.type.params) ts)
      → Partial env locals results (ops ++ op :: inner) (block :: outer) (seg ++ low) elseParams
  | thenArm {block : Control} {outer : List Control} {ops inner : List Op} {code : BlockCode}
    {seg params low elseParams : List StackType}
    : Partial env locals results ops outer (.val .I32 :: (params ++ low)) elseParams
      → block.kind = .Then → readBlockType env code = .ok block.type → block.valueStackBase = low.length
      → (∀ c ∈ outer.head?, c.valueStackBase ≤ low.length)
      → List.Forall₂ (StackType.Le env) params (stackOf block.type.params)
      → List.Forall₂ (StackType.Le env) (stackOf block.type.params) params
      → (∀ ts, Full block.polymorphicBase seg ts
        → Derives env locals (block.type.results :: labelsOf outer) inner (stackOf block.type.params) ts)
      → Partial env locals results (ops ++ .If code :: inner) (block :: outer) (seg ++ low)
        (params ++ elseParams)
  | elseArm {block : Control} {outer : List Control} {ops thenOps inner : List Op} {code : BlockCode}
    {seg params low elseParams : List StackType}
    : Partial env locals results ops outer (.val .I32 :: (params ++ low)) elseParams
      → block.kind = .Else → readBlockType env code = .ok block.type → block.valueStackBase = low.length
      → (∀ c ∈ outer.head?, c.valueStackBase ≤ low.length)
      → List.Forall₂ (StackType.Le env) params (stackOf block.type.params)
      → Derives env locals (block.type.results :: labelsOf outer) thenOps (stackOf block.type.params)
        (stackOf block.type.results)
      → (∀ ts, Full block.polymorphicBase seg ts
        → Derives env locals (block.type.results :: labelsOf outer) inner (stackOf block.type.params) ts)
      → Partial env locals results (ops ++ .If code :: (thenOps ++ .Else :: inner)) (block :: outer)
        (seg ++ low) elseParams

variable {ops more : List Op} {block : Control} {outer : List Control}
variable {stack seg seg' low elseParams : List StackType}

theorem Partial.split (h : Partial env locals results ops (block :: outer) stack elseParams)
    : ∃ seg low, stack = seg ++ low ∧ block.valueStackBase = low.length := by
  cases h with
  | body _ _ hbase => exact ⟨stack, [], (append_nil stack).symm, hbase⟩
  | nested _ _ _ hbase _ => exact ⟨_, _, rfl, hbase⟩
  | thenArm _ _ _ hbase => exact ⟨_, _, rfl, hbase⟩
  | elseArm _ _ _ hbase => exact ⟨_, _, rfl, hbase⟩

theorem branchTargetType_of_kind (h : block.kind ≠ .Loop) : block.branchTargetType = block.type.results := by
  unfold Control.branchTargetType
  rw [if_neg h]

theorem getLast?_cons_of {body : Control} (h : outer.getLast? = some body) : (block :: outer).getLast? = some body := by
  rw [List.getLast?_cons, h]
  rfl

theorem Partial.getLast {controls : List Control}
    (h : Partial env locals results ops controls stack elseParams)
    : ∃ body, controls.getLast? = some body ∧ body.type.results = results ∧ body.kind ≠ .Loop := by
  induction h with
  | @body block _ _ hkind htype _ _ =>
    refine ⟨block, rfl, ?_, ?_⟩
    . rw [htype]
    . rw [hkind]
      exact nofun
  | nested _ _ _ _ _ _ _ ih => exact ih.imp fun body hbody => ⟨getLast?_cons_of hbody.1, hbody.2⟩
  | thenArm _ _ _ _ _ _ _ _ ih => exact ih.imp fun body hbody => ⟨getLast?_cons_of hbody.1, hbody.2⟩
  | elseArm _ _ _ _ _ _ _ _ ih => exact ih.imp fun body hbody => ⟨getLast?_cons_of hbody.1, hbody.2⟩

theorem Partial.extend (h : Partial env locals results ops (block :: outer) (seg ++ low) elseParams)
    (hbase : block.valueStackBase = low.length) {poly : Bool}
    (hmore : ∀ ts', Full poly seg' ts' → ∃ ts, Full block.polymorphicBase seg ts
      ∧ Derives env locals (labelsOf (block :: outer)) more ts ts')
    : Partial env locals results (ops ++ more) ({ block with polymorphicBase := poly } :: outer)
      (seg' ++ low) elseParams := by
  generalize hstack : seg ++ low = stack at h
  cases h with
  | body hkind htype hzero hderives =>
    have hlow : low = [] := length_eq_zero_iff.mp (hbase.symm.trans hzero)
    subst hlow
    rw [append_nil] at hstack ⊢
    subst hstack
    refine .body hkind htype hzero fun ts' hts' => ?_
    obtain ⟨ts, hts, hstep⟩ := hmore ts' hts'
    have hlabel : labelsOf [block] = [results] := by
      unfold labelsOf
      rw [map_singleton, branchTargetType_of_kind (by rw [hkind]; exact nofun), htype]
    rw [hlabel] at hstep
    exact (hderives ts hts).append hstep
  | nested houter hkind htype hbase' hbelow hparams hderives =>
    obtain ⟨rfl, rfl⟩ := append_inj' hstack (hbase.symm.trans hbase')
    rw [append_assoc, cons_append]
    refine .nested houter hkind htype hbase' hbelow hparams fun ts' hts' => ?_
    obtain ⟨ts, hts, hstep⟩ := hmore ts' hts'
    exact (hderives ts hts).append hstep
  | thenArm houter hkind htype hbase' hbelow hparams hparams' hderives =>
    obtain ⟨rfl, rfl⟩ := append_inj' hstack (hbase.symm.trans hbase')
    rw [append_assoc, cons_append]
    refine .thenArm houter hkind htype hbase' hbelow hparams hparams' fun ts' hts' => ?_
    obtain ⟨ts, hts, hstep⟩ := hmore ts' hts'
    unfold labelsOf at hstep
    rw [map_cons, branchTargetType_of_kind (by rw [hkind]; exact nofun)] at hstep
    exact (hderives ts hts).append hstep
  | elseArm houter hkind htype hbase' hbelow hparams hthen hderives =>
    obtain ⟨rfl, rfl⟩ := append_inj' hstack (hbase.symm.trans hbase')
    rw [append_assoc, cons_append, append_assoc, cons_append]
    refine .elseArm houter hkind htype hbase' hbelow hparams hthen fun ts' hts' => ?_
    obtain ⟨ts, hts, hstep⟩ := hmore ts' hts'
    unfold labelsOf at hstep
    rw [map_cons, branchTargetType_of_kind (by rw [hkind]; exact nofun)] at hstep
    exact (hderives ts hts).append hstep

theorem Partial.close {params top : List StackType} (h : Partial env locals results ops outer (params ++ low) elseParams)
    (hbelow : ∀ c ∈ outer.head?, c.valueStackBase ≤ low.length)
    (hmore : Derives env locals (labelsOf outer) more params top)
    : Partial env locals results (ops ++ more) outer (top ++ low) elseParams := by
  cases outer with
  | nil => cases h
  | cons block outer =>
    obtain ⟨seg, low', hstack, hbase⟩ := h.split
    have hbelow := hbelow block rfl
    rw [hbase] at hbelow
    obtain ⟨rest, rfl⟩ := suffix_of_suffix_length_le ⟨seg, hstack.symm⟩ ⟨params, rfl⟩ hbelow
    rw [← append_assoc] at h ⊢
    refine h.extend hbase fun ts' hts' => ?_
    obtain ⟨ts, rfl, hts⟩ := hts'.of_append
    exact ⟨_, hts.append params, hmore.frame ts⟩

theorem Partial.branch {op : Op} {it : OpIter}
    (h : Partial env locals results ops (block :: outer) (seg ++ low) elseParams)
    (hbase : block.valueStackBase = low.length) {rest : List StackType} (helse : it.elseParamStack = elseParams)
    (hmore : ∃ ts, Full block.polymorphicBase seg ts
      ∧ ∀ ts', Derives env locals (labelsOf (block :: outer)) [op] ts ts')
    : Partial env locals results (ops ++ [op]) (it.afterUnconditionalBranch block outer (rest ++ low)).controlStack
      (it.afterUnconditionalBranch block outer (rest ++ low)).valueStack
      (it.afterUnconditionalBranch block outer (rest ++ low)).elseParamStack := by
  have hshrink : shrinkTo block.valueStackBase (rest ++ low) = [] ++ low := by
    unfold shrinkTo
    rw [hbase, length_append, Nat.add_sub_cancel, drop_left']
    . rfl
    . rfl
  unfold afterUnconditionalBranch
  simp only [hshrink, helse]
  refine h.extend hbase fun ts' _ => ?_
  obtain ⟨ts, hts, hstep⟩ := hmore
  exact ⟨ts, hts, hstep ts'⟩

theorem Derives.weaken {labels : List (List ValType)} {a a' b : List StackType}
    (h : Derives env locals labels ops a b) (hle : List.Forall₂ (StackType.Le env) a' a) (r : List StackType)
    : Derives env locals labels ops (a' ++ r) (b ++ r) :=
  (h.sub hle (le_refl_all env b)).frame r

theorem derives_nil {labels : List (List ValType)} {a b ts : List StackType}
    (hle : List.Forall₂ (StackType.Le env) a b) (hts : Full false b ts) : Derives env locals labels [] a ts := by
  rw [hts.eq_of_false rfl]
  exact (Derives.nil b).sub hle (le_refl_all env b)

def PartialAt (env : ModuleEnvironment) (locals results : List ValType) (ops : List Op) (it : OpIter) : Prop :=
  Partial env locals results ops it.controlStack it.valueStack it.elseParamStack

variable {it it' : OpIter} {op : Op}

section Full

theorem shrinkTo_append {top : List StackType} (hbase : block.valueStackBase = low.length)
    : shrinkTo block.valueStackBase (top ++ low) = low := by
  unfold shrinkTo
  rw [hbase, length_append, Nat.add_sub_cancel, drop_left' rfl]

theorem getElem?_labelsOf {controls : List Control} {depth : Nat} {target : Control}
    (htarget : controls[depth]? = some target) : (labelsOf controls)[depth]? = some target.branchTargetType := by
  unfold labelsOf
  rw [List.getElem?_map, htarget]
  rfl

theorem getControl_eq_ok {depth : Nat} {target : Control}
    : getControl it depth = .ok target ↔ it.controlStack[depth]? = some target := by
  unfold getControl
  cases it.controlStack[depth]? with
  | none => exact ⟨nofun, nofun⟩
  | some block =>
    constructor
    . intro h
      cases h
      rfl
    intro h
    cases h
    rfl

theorem getLocalType_eq_ok {id : Nat} {message : String} {t : ValType}
    : getLocalType locals id message = .ok t ↔ locals[id]? = some t := by
  unfold getLocalType
  cases locals[id]? with
  | none => exact ⟨nofun, nofun⟩
  | some t' =>
    constructor
    . intro h
      cases h
      rfl
    intro h
    cases h
    rfl

theorem le_stackOf_iff {types types' : List ValType}
    : List.Forall₂ (StackType.Le env) (stackOf types) (stackOf types')
      ↔ List.Forall₂ (isSubtypeOf env · · = true) types types' := by
  unfold stackOf
  rw [forall₂_reverse_iff, forall₂_map_left_iff, forall₂_map_right_iff]
  constructor
  . intro hle
    refine hle.imp fun a b hab => ?_
    cases hab with
    | val hsub => exact hsub
  . exact fun hsub => hsub.imp fun a b hab => .val hab

theorem popThenPushType_known {types expected : List ValType} {rest stack : List StackType}
    (hbase : block.valueStackBase ≤ rest.length) (hlen : types.length = expected.length)
    : popThenPushType env block expected (stackOf types ++ rest) = .ok stack
      ↔ stack = stackOf types ++ rest ∧ List.Forall₂ (isSubtypeOf env · · = true) types expected := by
  unfold popThenPushType
  rw [← map_val_reverse, popThenPushEach_known hbase (by rw [length_reverse, length_reverse, hlen]),
    forall₂_reverse_iff]

theorem checkBrTableEntries_known {types : List ValType} {rest stack : List StackType}
    (hbase : block.valueStackBase ≤ rest.length) {depths : List Nat}
    : checkBrTableEntries env it block depths (some types.length) (stackOf types ++ rest) = .ok stack
      ↔ stack = stackOf types ++ rest ∧ ∀ depth ∈ depths, ∃ target, it.controlStack[depth]? = some target
        ∧ List.Forall₂ (isSubtypeOf env · · = true) types target.branchTargetType := by
  induction depths with
  | nil =>
    constructor
    . intro h
      cases h
      exact ⟨rfl, nofun⟩
    . rintro ⟨rfl, -⟩
      rfl
  | cons depth depths ih =>
    unfold checkBrTableEntries
    rw [bind_eq_ok, forall_mem_cons]
    constructor
    . rintro ⟨target, htarget, h⟩
      simp only [] at h
      split at h
      next => contradiction
      next hlen =>
        have hlen : types.length = target.branchTargetType.length := by simpa using hlen
        rw [bind_eq_ok] at h
        obtain ⟨stack', hpop, h⟩ := h
        obtain ⟨rfl, hsub⟩ := (popThenPushType_known hbase hlen).mp hpop
        rw [← hlen] at h
        obtain ⟨hstack, hdepths⟩ := ih.mp h
        exact ⟨hstack, ⟨target, getControl_eq_ok.mp htarget, hsub⟩, hdepths⟩
    . rintro ⟨hstack, ⟨target, htarget, hsub⟩, hdepths⟩
      have hlen := hsub.length_eq
      refine ⟨target, getControl_eq_ok.mpr htarget, ?_⟩
      rw [if_neg (by simpa using hlen), bind_eq_ok, ← hlen]
      exact ⟨_, (popThenPushType_known hbase hlen).mpr ⟨rfl, hsub⟩, ih.mpr ⟨hstack, hdepths⟩⟩

theorem checkBrTableEntries_full {depths : List Nat} {stack : List StackType}
    (hbase : block.valueStackBase = low.length) (hne : depths ≠ [])
    (hentries : checkBrTableEntries env it block depths none (seg ++ low) = .ok stack)
    : ∃ types rest, stack = stackOf types ++ (rest ++ low)
      ∧ (∀ depth ∈ depths, ∃ target, it.controlStack[depth]? = some target
        ∧ List.Forall₂ (isSubtypeOf env · · = true) types target.branchTargetType)
      ∧ ∀ ts, Full block.polymorphicBase rest ts → ∃ top', Full block.polymorphicBase seg (top' ++ ts)
        ∧ List.Forall₂ (StackType.Le env) top' (stackOf types) := by
  cases depths with
  | nil => contradiction
  | cons depth depths =>
    unfold checkBrTableEntries at hentries
    rw [bind_eq_ok] at hentries
    obtain ⟨target, htarget, hentries⟩ := hentries
    simp only [Option.any_none, Bool.false_eq_true, if_false] at hentries
    rw [bind_eq_ok] at hentries
    obtain ⟨stack1, hpop, hentries⟩ := hentries
    obtain ⟨types, rest, rfl, hle, -, hfull⟩ := popThenPushType_full hbase hpop
    rw [le_stackOf_iff] at hle
    have hbelow : block.valueStackBase ≤ (rest ++ low).length := by
      rw [hbase, length_append]
      exact Nat.le_add_left ..
    rw [← hle.length_eq] at hentries
    obtain ⟨rfl, hdepths⟩ := (checkBrTableEntries_known hbelow).mp hentries
    exact ⟨types, rest, rfl, forall_mem_cons.mpr ⟨⟨target, getControl_eq_ok.mp htarget, hle⟩, hdepths⟩, hfull⟩

variable (hvalue : it.valueStack = seg ++ low) (hbase : block.valueStackBase = low.length)

include hvalue hbase

theorem readFixed_full {operandTypes resultTypes : List ValType}
    (hread : readFixed env it block operandTypes resultTypes = .ok it')
    : ∃ top rest, it' = { it with valueStack := (stackOf resultTypes ++ rest) ++ low }
      ∧ List.Forall₂ (StackType.Le env) top (stackOf operandTypes)
      ∧ ∀ ts, Full block.polymorphicBase rest ts → Full block.polymorphicBase seg (top ++ ts) := by
  unfold readFixed popWithTypes at hread
  rw [hvalue, bind_eq_ok] at hread
  obtain ⟨stack, hpop, hread⟩ := hread
  obtain ⟨top, rest, rfl, hle, hfull⟩ := popEach_full hbase hpop
  rw [map_val_reverse] at hle
  cases hread
  refine ⟨top, rest, ?_, hle, hfull⟩
  rw [append_assoc]
  rfl

theorem readSelectTyped_full {types : List ValType} (hread : readSelectTyped env it block types = .ok it')
    : ∃ result top rest, types = [result] ∧ it' = { it with valueStack := .val result :: rest ++ low }
      ∧ List.Forall₂ (StackType.Le env) top [.val .I32, .val result, .val result]
      ∧ ∀ ts, Full block.polymorphicBase rest ts → Full block.polymorphicBase seg (top ++ ts) := by
  unfold readSelectTyped popWithTypes at hread
  split at hread
  next result =>
    rw [hvalue, bind_eq_ok] at hread
    obtain ⟨stack, hpop, hread⟩ := hread
    obtain ⟨top, rest, rfl, hle, hfull⟩ := popEach_full hbase hpop
    cases hread
    exact ⟨result, top, rest, rfl, rfl, hle, hfull⟩
  next => contradiction

theorem readSelect_full (hselect : readSelect env it block = .ok it')
    : ∃ s falseType trueType t rest, StackType.Le env s (.val .I32) ∧ t.isValidForUntypedSelect = true
      ∧ StackType.Le env falseType t ∧ StackType.Le env trueType t
      ∧ (∀ ts, Full block.polymorphicBase rest ts → Full block.polymorphicBase seg (s :: falseType :: trueType :: ts))
      ∧ it' = { it with valueStack := t :: (rest ++ low) } := by
  unfold readSelect at hselect
  rw [hvalue, bind_eq_ok] at hselect
  obtain ⟨stack, hpop, hselect⟩ := hselect
  obtain ⟨s, seg1, rfl, hle, hfull⟩ := popWithType_full hbase hpop
  rw [bind_eq_ok] at hselect
  obtain ⟨⟨falseType, stack⟩, hpop1, hselect⟩ := hselect
  obtain ⟨seg2, rfl, hfull1⟩ := popStackType_full hbase hpop1
  simp only [] at hselect
  rw [bind_eq_ok] at hselect
  obtain ⟨⟨trueType, stack⟩, hpop2, hselect⟩ := hselect
  obtain ⟨seg3, rfl, hfull2⟩ := popStackType_full hbase hpop2
  have hfull3 ts hts := hfull _ (hfull1 _ (hfull2 ts hts))
  split at hselect
  next => contradiction
  next hvalid =>
    rw [Bool.or_eq_true, Bool.not_eq_true', Bool.not_eq_true', not_or, Bool.not_eq_false, Bool.not_eq_false] at hvalid
    split at hselect
    next hfalse =>
      cases hselect
      exact ⟨s, falseType, trueType, trueType, seg3, hle, hvalid.2, hfalse ▸ .tvar _, .refl env _, hfull3, rfl⟩
    next =>
      split at hselect
      next htrue =>
        cases hselect
        refine ⟨s, falseType, trueType, falseType, seg3, hle, hvalid.1, .refl env _, ?_, hfull3, rfl⟩
        rcases htrue with rfl | rfl
        . exact .tvar _
        . exact .refl env _
      next => contradiction

omit hvalue in
theorem head_le (rest : List StackType) : ∀ c ∈ (block :: outer).head?, c.valueStackBase ≤ (rest ++ low).length := by
  intro c hc
  cases hc
  rw [hbase, length_append]
  exact Nat.le_add_left ..

theorem pushControl_full {kind : LabelKind} {type : BlockType}
    (hpush : pushControl env it block kind type = .ok it')
    : ∃ top rest, it' = { it with
          valueStack := top ++ (rest ++ low)
          controlStack := ⟨kind, type, (rest ++ low).length, false⟩ :: it.controlStack }
      ∧ top.length = type.params.length ∧ List.Forall₂ (StackType.Le env) top (stackOf type.params)
      ∧ (¬MeetsStrict env block type.params it.valueStack → List.Forall₂ (StackType.Le env) (stackOf type.params) top)
      ∧ ∀ ts, Full block.polymorphicBase rest ts → ∃ top', Full block.polymorphicBase seg (top' ++ ts)
        ∧ List.Forall₂ (StackType.Le env) top' top := by
  unfold pushControl at hpush
  rw [hvalue, bind_eq_ok] at hpush
  obtain ⟨stack, hpop, hpush⟩ := hpush
  obtain ⟨types, rest, rfl, hle, hge, hfull⟩ := popThenPushType_full hbase hpop
  have hlen := hle.length_eq
  rw [stackOf_length type.params] at hlen
  refine ⟨stackOf types, rest, ?_, hlen, hle, hvalue ▸ hge, hfull⟩
  rw [length_append, ← hlen, Nat.add_sub_cancel_left] at hpush
  cases hpush
  rfl

theorem readBr_full {depth : Nat} (hread : readBr env it block outer depth = .ok it')
    : ∃ target types rest, it.controlStack[depth]? = some target
      ∧ it' = it.afterUnconditionalBranch block outer (stackOf types ++ rest ++ low)
      ∧ ∀ ts, Full block.polymorphicBase rest ts → ∃ top', Full block.polymorphicBase seg (top' ++ ts)
        ∧ List.Forall₂ (StackType.Le env) top' (stackOf target.branchTargetType) := by
  unfold readBr checkBranchValue at hread
  rw [hvalue, bind_eq_ok] at hread
  obtain ⟨stack, hcheck, hread⟩ := hread
  rw [bind_eq_ok] at hcheck
  obtain ⟨target, htarget, hpop⟩ := hcheck
  obtain ⟨types, rest, rfl, hle, -, hfull⟩ := popThenPushType_full hbase hpop
  cases hread
  refine ⟨target, types, rest, getControl_eq_ok.mp htarget, by rw [append_assoc], fun ts hts => ?_⟩
  obtain ⟨top', hfull', hle'⟩ := hfull ts hts
  exact ⟨top', hfull', le_trans_all hle' hle⟩

theorem readBrIf_full {depth : Nat} (hread : readBrIf env it block depth = .ok it')
    : ∃ target stack s types rest, it.controlStack[depth]? = some target
      ∧ popWithType env block .I32 it.valueStack = .ok stack
      ∧ it' = { it with valueStack := (stackOf types ++ rest) ++ low } ∧ StackType.Le env s (.val .I32)
      ∧ (¬MeetsStrict env block target.branchTargetType stack
        → List.Forall₂ (StackType.Le env) (stackOf target.branchTargetType) (stackOf types))
      ∧ ∀ ts, Full block.polymorphicBase rest ts → ∃ top', Full block.polymorphicBase seg (s :: (top' ++ ts))
        ∧ List.Forall₂ (StackType.Le env) top' (stackOf target.branchTargetType) := by
  unfold readBrIf checkBranchValue at hread
  rw [hvalue, bind_eq_ok] at hread
  obtain ⟨stack, hpop, hread⟩ := hread
  obtain ⟨s, seg1, rfl, hle1, hfull1⟩ := popWithType_full hbase hpop
  rw [bind_eq_ok] at hread
  obtain ⟨stack, hcheck, hread⟩ := hread
  rw [bind_eq_ok] at hcheck
  obtain ⟨target, htarget, hpush⟩ := hcheck
  obtain ⟨types, rest, rfl, hle, hge, hfull⟩ := popThenPushType_full hbase hpush
  cases hread
  refine ⟨target, _, s, types, rest, getControl_eq_ok.mp htarget, hvalue ▸ hpop, ?_, hle1, hge, fun ts hts => ?_⟩
  . rw [append_assoc]
  . obtain ⟨top', hfull', hle'⟩ := hfull ts hts
    exact ⟨top', hfull1 _ hfull', le_trans_all hle' hle⟩

theorem readBrTable_full {depths : List Nat} {defaultDepth : Nat}
    (hread : readBrTable env it block outer depths defaultDepth = .ok it')
    : ∃ s types rest, depths.length ≤ MaxBrTableElems
      ∧ it' = it.afterUnconditionalBranch block outer (stackOf types ++ rest ++ low) ∧ StackType.Le env s (.val .I32)
      ∧ (∀ depth ∈ depths ++ [defaultDepth], ∃ target, it.controlStack[depth]? = some target
        ∧ List.Forall₂ (isSubtypeOf env · · = true) types target.branchTargetType)
      ∧ ∀ ts, Full block.polymorphicBase rest ts → ∃ top', Full block.polymorphicBase seg (s :: (top' ++ ts))
        ∧ List.Forall₂ (StackType.Le env) top' (stackOf types) := by
  unfold readBrTable at hread
  split at hread
  next => contradiction
  next hdepths =>
    rw [hvalue, bind_eq_ok] at hread
    obtain ⟨stack, hpop, hread⟩ := hread
    obtain ⟨s, seg1, rfl, hle1, hfull1⟩ := popWithType_full hbase hpop
    rw [bind_eq_ok] at hread
    obtain ⟨stack, hentries, hread⟩ := hread
    obtain ⟨types, rest, rfl, hlabels, hfull⟩ := checkBrTableEntries_full hbase (by simp) hentries
    cases hread
    refine ⟨s, types, rest, Nat.not_lt.mp hdepths, by rw [append_assoc], hle1, hlabels, fun ts hts => ?_⟩
    obtain ⟨top', hfull', hle'⟩ := hfull ts hts
    exact ⟨top', hfull1 _ hfull', hle'⟩

theorem readReturn_full (hread : readReturn env it block outer = .ok it')
    : ∃ top rest, it' = it.afterUnconditionalBranch block outer (rest ++ low) ∧ List.Forall₂ (StackType.Le env) top
        (stackOf ((block :: outer).getLast (cons_ne_nil block outer)).type.results)
      ∧ ∀ ts, Full block.polymorphicBase rest ts → Full block.polymorphicBase seg (top ++ ts) := by
  unfold readReturn popWithTypes at hread
  rw [hvalue, bind_eq_ok] at hread
  obtain ⟨stack, hpop, hread⟩ := hread
  obtain ⟨top, rest, rfl, hle, hfull⟩ := popEach_full hbase hpop
  rw [map_val_reverse] at hle
  cases hread
  exact ⟨top, rest, rfl, hle, hfull⟩

end Full

section Operands

variable (h : PartialAt env locals results ops it) (hcontrol : it.controlStack = block :: outer)

include h hcontrol in
theorem PartialAt.split : ∃ seg low, it.valueStack = seg ++ low ∧ block.valueStackBase = low.length := by
  unfold PartialAt at h
  rw [hcontrol] at h
  exact h.split

include h hcontrol in
theorem PartialAt.extend (hvalue : it.valueStack = seg ++ low) (hbase : block.valueStackBase = low.length)
    (hmore : ∀ ts', Full block.polymorphicBase seg' ts' → ∃ ts, Full block.polymorphicBase seg ts
      ∧ Derives env locals (labelsOf (block :: outer)) more ts ts')
    : Partial env locals results (ops ++ more) (block :: outer) (seg' ++ low) it.elseParamStack := by
  unfold PartialAt at h
  rw [hcontrol, hvalue] at h
  exact h.extend hbase hmore

include h hcontrol in
theorem PartialAt.step (hvalue : it.valueStack = seg ++ low) (hbase : block.valueStackBase = low.length)
    (hmore : ∀ ts', Full block.polymorphicBase seg' ts' → ∃ ts, Full block.polymorphicBase seg ts
      ∧ Derives env locals (labelsOf (block :: outer)) [op] ts ts')
    : PartialAt env locals results (ops ++ [op]) { it with valueStack := seg' ++ low } := by
  simp only [hcontrol]
  exact h.extend hcontrol hvalue hbase hmore

include h hcontrol in
theorem PartialAt.branch (hvalue : it.valueStack = seg ++ low) (hbase : block.valueStackBase = low.length)
    (rest : List StackType) (hmore : ∃ ts, Full block.polymorphicBase seg ts
      ∧ ∀ ts', Derives env locals (labelsOf (block :: outer)) [op] ts ts')
    : PartialAt env locals results (ops ++ [op]) (it.afterUnconditionalBranch block outer (rest ++ low)) := by
  unfold PartialAt at h ⊢
  rw [hcontrol, hvalue] at h
  exact Partial.branch h hbase rfl hmore

include h hcontrol in
theorem partial_readFixed {operandTypes resultTypes : List ValType}
    (hstep : readFixed env it block operandTypes resultTypes = .ok it')
    (hrule : ∀ labels, Derives env locals labels [op] (stackOf operandTypes) (stackOf resultTypes))
    : PartialAt env locals results (ops ++ [op]) it' := by
  obtain ⟨seg, low, hvalue, hbase⟩ := h.split hcontrol
  obtain ⟨top, rest, rfl, hle, hfull⟩ := readFixed_full hvalue hbase hstep
  refine h.step hcontrol hvalue hbase fun ts' hts' => ?_
  obtain ⟨ts, rfl, hts⟩ := hts'.of_append
  exact ⟨_, hfull ts hts, Derives.weaken (hrule _) hle ts⟩

include h hcontrol in
theorem partial_readDrop {stack : List StackType} {t : StackType}
    (hpop : popStackType block it.valueStack = .ok (t, stack))
    : PartialAt env locals results (ops ++ [.Drop]) { it with valueStack := stack } := by
  obtain ⟨seg, low, hvalue, hbase⟩ := h.split hcontrol
  rw [hvalue] at hpop
  obtain ⟨seg', rfl, hfull⟩ := popStackType_full hbase hpop
  refine h.step hcontrol hvalue hbase fun ts' hts' => ?_
  exact ⟨_, hfull ts' hts', (Derives.drop t).frame ts'⟩

include h hcontrol in
theorem partial_readSelect (hstep : readSelect env it block = .ok it')
    : PartialAt env locals results (ops ++ [.Select]) it' := by
  obtain ⟨seg, low, hvalue, hbase⟩ := h.split hcontrol
  obtain ⟨s, falseType, trueType, t, rest, hle, ht, hfalse, htrue, hfull, rfl⟩ := readSelect_full hvalue hbase hstep
  rw [← cons_append]
  refine h.step hcontrol hvalue hbase fun ts' hts' => ?_
  obtain ⟨ts, rfl, hts⟩ := @Full.of_append _ [t] _ _ hts'
  refine ⟨_, hfull ts hts, ?_⟩
  exact Derives.weaken (.select ht) (.cons hle (.cons hfalse (.cons htrue .nil))) ts

include h hcontrol in
theorem partial_popThenPush {stack : List StackType} {expected : List ValType}
    (hpop : popThenPushType env block expected it.valueStack = .ok stack)
    (hstrict : ¬MeetsStrict env block expected it.valueStack)
    (hrule : Derives env locals (labelsOf (block :: outer)) [op] (stackOf expected) (stackOf expected))
    : PartialAt env locals results (ops ++ [op]) { it with valueStack := stack } := by
  obtain ⟨seg, low, hvalue, hbase⟩ := h.split hcontrol
  rw [hvalue] at hpop hstrict
  obtain ⟨types, rest, rfl, hle, hge, hfull⟩ := popThenPushType_full hbase hpop
  rw [← append_assoc]
  refine h.step hcontrol hvalue hbase fun ts' hts' => ?_
  obtain ⟨ts, rfl, hts⟩ := hts'.of_append
  obtain ⟨top', hfull', hle'⟩ := hfull ts hts
  exact ⟨_, hfull', (hrule.sub (le_trans_all hle' hle) (hge hstrict)).frame ts⟩

include h hcontrol in
theorem partial_pushControl {code : BlockCode} {type : BlockType} {kind : LabelKind}
    (hpush : pushControl env it block kind type = .ok it') (htype : readBlockType env code = .ok type)
    (hstrict : ¬MeetsStrict env block type.params it.valueStack)
    (hop : op = .Block code ∧ kind = .Block ∨ op = .Loop code ∧ kind = .Loop)
    : PartialAt env locals results (ops ++ [op]) it' := by
  obtain ⟨seg, low, hvalue, hbase⟩ := h.split hcontrol
  obtain ⟨top, rest, rfl, -, hle, hge, hfull⟩ := pushControl_full hvalue hbase hpush
  have houter := @PartialAt.extend _ _ _ _ [] _ _ _ (top ++ rest) _ _ h hcontrol hvalue hbase fun ts' hts' => by
    obtain ⟨ts, rfl, hts⟩ := hts'.of_append
    obtain ⟨top', hfull', hle'⟩ := hfull ts hts
    exact ⟨_, hfull', ((Derives.nil top).sub hle' (le_refl_all env top)).frame ts⟩
  rw [append_nil, append_assoc] at houter
  simp only [hcontrol]
  exact .nested houter hop htype rfl (head_le hbase rest) hle fun ts hts => derives_nil (hge hstrict) hts

include h hcontrol in
theorem partial_readIf {code : BlockCode} (hif : readIf env it block code = .ok it')
    (hstrict : ¬Strays env locals it (.If code)) : PartialAt env locals results (ops ++ [.If code]) it' := by
  obtain ⟨seg, low, hvalue, hbase⟩ := h.split hcontrol
  unfold readIf at hif
  rw [bind_eq_ok] at hif
  obtain ⟨type, htype, hif⟩ := hif
  rw [bind_eq_ok] at hif
  obtain ⟨stack, hpop, hif⟩ := hif
  have hstrict : ¬MeetsStrict env block type.params stack :=
    fun hmeets => hstrict ⟨block, outer, hcontrol, type, stack, htype, hpop, hmeets⟩
  rw [hvalue] at hpop
  obtain ⟨s, seg1, rfl, hle1, hfull1⟩ := popWithType_full hbase hpop
  rw [bind_eq_ok] at hif
  obtain ⟨it1, hpush, hif⟩ := hif
  obtain ⟨top, rest, rfl, hlen, hle, hge, hfull⟩ := pushControl_full rfl hbase hpush
  have houter := @PartialAt.extend _ _ _ _ [] _ _ _ (.val .I32 :: (top ++ rest)) _ _ h hcontrol hvalue hbase
      fun ts' hts' => by
    obtain ⟨ts, rfl, hts⟩ := @Full.of_append _ (.val .I32 :: top) _ _ hts'
    obtain ⟨top', hfull', hle'⟩ := hfull ts hts
    refine ⟨_, hfull1 _ hfull', ?_⟩
    exact ((Derives.nil (.val .I32 :: top)).sub (.cons hle1 hle') (le_refl_all env _)).frame ts
  rw [append_nil, cons_append, append_assoc] at houter
  cases hif
  simp only [hcontrol]
  rw [take_left' hlen]
  exact .thenArm houter rfl htype rfl (head_le hbase rest) hle (hge hstrict) fun ts hts => derives_nil (hge hstrict) hts

include h hcontrol in
theorem partial_readElse (helse : readElse env it block outer = .ok it')
    : PartialAt env locals results (ops ++ [.Else]) it' := by
  unfold readElse at helse
  split at helse
  next => contradiction
  next hkind =>
    rw [not_not] at hkind
    rw [bind_eq_ok] at helse
    obtain ⟨stack, hend, helse⟩ := helse
    obtain ⟨valueStack, elseParamStack, controlStack⟩ := it
    unfold PartialAt at h
    simp only at hcontrol h hend helse
    subst hcontrol
    cases h with
    | body hkind' => rw [hkind] at hkind'; contradiction
    | nested _ hkind' => rw [hkind] at hkind'; rcases hkind' with ⟨-, hkind'⟩ | ⟨-, hkind'⟩ <;> contradiction
    | elseArm _ hkind' => rw [hkind] at hkind'; contradiction
    | @thenArm _ _ ops inner code seg params low elseParams houter _ htype hbase hbelow hparams hparams' hderives =>
      obtain ⟨top, rfl, hle, -, ts, hts, hle'⟩ := checkStackAtEndOfBlock_full rfl hbase hend
      have hlen := hparams.length_eq
      rw [stackOf_length] at hlen
      rw [shrinkTo_append hbase, take_left' hlen, drop_left' hlen] at helse
      cases helse
      rw [append_assoc, cons_append]
      refine .elseArm houter rfl htype hbase hbelow hparams ?_ ?_
      . exact (hderives ts hts).sub (le_refl_all env _) (le_trans_all hle' hle)
      . exact fun ts hts => derives_nil hparams' hts

include h hcontrol in
theorem partial_readEnd (hend : readEnd env it block outer = .ok it') (hstrict : ¬Strays env locals it .End)
    : PartialAt env locals results (ops ++ [.End]) it'
      ∨ it'.controlStack = [] ∧ DerivesBody env locals results (ops ++ [.End]) := by
  unfold readEnd at hend
  rw [bind_eq_ok] at hend
  obtain ⟨stack, hcheck, hend⟩ := hend
  have hmeets : block.kind ≠ .Body → ¬MeetsStrict env block block.type.results it.valueStack :=
    fun hkind hmeets => hstrict ⟨block, outer, hcontrol, hkind, hmeets⟩
  obtain ⟨valueStack, elseParamStack, controlStack⟩ := it
  unfold PartialAt at h ⊢
  simp only at hcontrol h hend hcheck hmeets
  subst hcontrol
  cases h with
  | body hkind htype hbase hderives =>
    rw [if_neg (by rw [hkind]; exact nofun)] at hend
    cases hend
    right
    have hvalue : valueStack = valueStack ++ [] := (append_nil valueStack).symm
    obtain ⟨top, -, hle, -, ts, hts, hle'⟩ := checkStackAtEndOfBlock_full hvalue hbase hcheck
    refine ⟨rfl, ops, rfl, ?_⟩
    rw [htype] at hle
    exact (hderives ts hts).sub .nil (le_trans_all hle' hle)
  | @nested _ _ ops inner op code seg params low elseParams houter hop htype hbase hbelow hparams hderives =>
    have hthen : block.kind ≠ .Then := by rcases hop with ⟨-, hkind⟩ | ⟨-, hkind⟩ <;> rw [hkind] <;> exact nofun
    have hbody : block.kind ≠ .Body := by rcases hop with ⟨-, hkind⟩ | ⟨-, hkind⟩ <;> rw [hkind] <;> exact nofun
    rw [if_neg hthen] at hend
    cases hend
    left
    obtain ⟨top, rfl, hle, hge, ts, hts, hle'⟩ := checkStackAtEndOfBlock_full rfl hbase hcheck
    have hinner := (hderives ts hts).sub (le_refl_all env _) (le_trans_all hle' hle)
    rw [append_assoc, cons_append]
    refine houter.close hbelow ?_
    rcases hop with ⟨rfl, hkind⟩ | ⟨rfl, hkind⟩
    . rw [branchTargetType_of_kind (by rw [hkind]; exact nofun)] at hinner
      exact (Derives.block htype hinner).sub hparams (hge (hmeets hbody))
    unfold Control.branchTargetType at hinner
    rw [if_pos hkind] at hinner
    exact (Derives.loop htype hinner).sub hparams (hge (hmeets hbody))
  | @thenArm _ _ ops inner code seg params low elseParams houter hkind htype hbase hbelow hparams hparams' hderives =>
    have hbody : block.kind ≠ .Body := by rw [hkind]; exact nofun
    rw [if_pos hkind] at hend
    split at hend
    next => contradiction
    next heq =>
      rw [not_not] at heq
      cases hend
      left
      obtain ⟨top, rfl, hle, hge, ts, hts, hle'⟩ := checkStackAtEndOfBlock_full rfl hbase hcheck
      have hinner := (hderives ts hts).sub (le_refl_all env _) (le_trans_all hle' hle)
      have hlen := hparams.length_eq
      rw [stackOf_length] at hlen
      simp only [drop_left' hlen]
      rw [append_assoc, cons_append]
      refine @Partial.close _ _ _ _ _ _ _ _ (.val .I32 :: params) _ houter hbelow ?_
      exact (Derives.ifEnd htype heq hinner).sub (.cons (.refl env _) hparams) (hge (hmeets hbody))
  | @elseArm _ _ ops thenOps inner code seg params low elseParams houter hkind htype hbase hbelow hparams hthen hderives =>
    have hbody : block.kind ≠ .Body := by rw [hkind]; exact nofun
    rw [if_neg (by rw [hkind]; exact nofun)] at hend
    cases hend
    left
    obtain ⟨top, rfl, hle, hge, ts, hts, hle'⟩ := checkStackAtEndOfBlock_full rfl hbase hcheck
    have hinner := (hderives ts hts).sub (le_refl_all env _) (le_trans_all hle' hle)
    rw [append_assoc, cons_append, append_assoc, cons_append]
    refine @Partial.close _ _ _ _ _ _ _ _ (.val .I32 :: params) _ houter hbelow ?_
    exact (Derives.ifElse htype hthen hinner).sub (.cons (.refl env _) hparams) (hge (hmeets hbody))

include h hcontrol in
theorem partial_readBr {depth : Nat} (hbr : readBr env it block outer depth = .ok it')
    : PartialAt env locals results (ops ++ [.Br depth]) it' := by
  obtain ⟨seg, low, hvalue, hbase⟩ := h.split hcontrol
  obtain ⟨target, types, rest, htarget, rfl, hfull⟩ := readBr_full hvalue hbase hbr
  rw [hcontrol] at htarget
  refine h.branch hcontrol hvalue hbase (stackOf types ++ rest) ?_
  obtain ⟨top', hfull', hle⟩ := hfull rest (.self _ rest)
  refine ⟨_, hfull', fun ts' => ?_⟩
  have hrest := rel_append hle (le_refl_all env rest)
  exact (Derives.br rest ts' (getElem?_labelsOf htarget)).sub hrest (le_refl_all env ts')

include h hcontrol in
theorem partial_readBrIf {depth : Nat} (hbr : readBrIf env it block depth = .ok it')
    (hstrict : ¬Strays env locals it (.BrIf depth))
    : PartialAt env locals results (ops ++ [.BrIf depth]) it' := by
  obtain ⟨seg, low, hvalue, hbase⟩ := h.split hcontrol
  obtain ⟨target, stack, s, types, rest, htarget, hpop, rfl, hle1, hge, hfull⟩ := readBrIf_full hvalue hbase hbr
  have hstrict : ¬MeetsStrict env block target.branchTargetType stack :=
    fun hmeets => hstrict ⟨block, outer, hcontrol, target, stack, htarget, hpop, hmeets⟩
  rw [hcontrol] at htarget
  refine h.step hcontrol hvalue hbase fun ts' hts' => ?_
  obtain ⟨ts, rfl, hts⟩ := hts'.of_append
  obtain ⟨top', hfull', hle⟩ := hfull ts hts
  refine ⟨_, hfull', ?_⟩
  have hrule := @Derives.brIf env locals _ _ _ (getElem?_labelsOf htarget)
  exact (hrule.sub (.cons hle1 hle) (hge hstrict)).frame ts

include h hcontrol in
theorem partial_readBrTable {depths : List Nat} {defaultDepth : Nat}
    (hbr : readBrTable env it block outer depths defaultDepth = .ok it')
    : PartialAt env locals results (ops ++ [.BrTable depths defaultDepth]) it' := by
  obtain ⟨seg, low, hvalue, hbase⟩ := h.split hcontrol
  obtain ⟨s, types, rest, hdepths, rfl, hle1, hlabels, hfull⟩ := readBrTable_full hvalue hbase hbr
  rw [hcontrol] at hlabels
  refine h.branch hcontrol hvalue hbase (stackOf types ++ rest) ?_
  obtain ⟨top', hfull', hle'⟩ := hfull rest (.self _ rest)
  refine ⟨_, hfull', fun ts' => ?_⟩
  have hrule := @Derives.brTable env locals (labelsOf (block :: outer)) _ _ _ rest ts' hdepths fun depth hdepth => by
    obtain ⟨target, htarget, hsub⟩ := hlabels depth hdepth
    exact ⟨_, getElem?_labelsOf htarget, hsub⟩
  exact hrule.sub (.cons hle1 (rel_append hle' (le_refl_all env rest))) (le_refl_all env ts')

include h hcontrol in
theorem partial_readReturn (hreturn : readReturn env it block outer = .ok it')
    : PartialAt env locals results (ops ++ [.Return]) it' := by
  obtain ⟨seg, low, hvalue, hbase⟩ := h.split hcontrol
  have hlast : (block :: outer).getLast? = some ((block :: outer).getLast (cons_ne_nil block outer)) :=
    List.getLast?_eq_some_getLast _
  obtain ⟨top, rest, rfl, hle, hfull⟩ := readReturn_full hvalue hbase hreturn
  refine h.branch hcontrol hvalue hbase rest ?_
  refine ⟨_, hfull rest (.self _ rest), fun ts' => ?_⟩
  have hbody := h
  unfold PartialAt at hbody
  rw [hcontrol] at hbody
  obtain ⟨body, hbody, hresults, hkind⟩ := hbody.getLast
  rw [hlast, Option.some.injEq] at hbody
  rw [hbody] at hle
  have hlabels : (labelsOf (block :: outer)).getLast? = some body.type.results := by
    unfold labelsOf
    rw [List.getLast?_map, hlast, hbody, ← branchTargetType_of_kind hkind]
    rfl
  have hrule := @Derives.return env locals _ _ rest ts' hlabels
  exact hrule.sub (rel_append hle (le_refl_all env rest)) (le_refl_all env ts')

include h hcontrol in
theorem partial_readSelectTyped {types : List ValType} (hselect : readSelectTyped env it block types = .ok it')
    : PartialAt env locals results (ops ++ [.SelectTyped types]) it' := by
  obtain ⟨seg, low, hvalue, hbase⟩ := h.split hcontrol
  obtain ⟨result, top, rest, rfl, rfl, hle, hfull⟩ := readSelectTyped_full hvalue hbase hselect
  refine h.step hcontrol hvalue hbase fun ts' hts' => ?_
  obtain ⟨ts, rfl, hts⟩ := @Full.of_append _ [.val result] _ _ hts'
  exact ⟨_, hfull ts hts, Derives.weaken (.selectTyped result) hle ts⟩

include h in
theorem partial_readOp (hread : readOp env locals it op = .ok it') (hstrays : ¬Strays env locals it op)
    : PartialAt env locals results (ops ++ [op]) it'
      ∨ it'.controlStack = [] ∧ DerivesBody env locals results (ops ++ [op]) := by
  unfold readOp at hread
  split at hread
  next => contradiction
  next block outer hcontrol =>
    cases op with
    | Block code =>
      left
      rw [bind_eq_ok] at hread
      obtain ⟨type, htype, hpush⟩ := hread
      have hstrict hmeets := hstrays ⟨block, outer, hcontrol, type, htype, hmeets⟩
      exact partial_pushControl h hcontrol hpush htype hstrict (.inl ⟨rfl, rfl⟩)
    | Loop code =>
      left
      rw [bind_eq_ok] at hread
      obtain ⟨type, htype, hpush⟩ := hread
      have hstrict hmeets := hstrays ⟨block, outer, hcontrol, type, htype, hmeets⟩
      exact partial_pushControl h hcontrol hpush htype hstrict (.inr ⟨rfl, rfl⟩)
    | If code => exact .inl (partial_readIf h hcontrol hread hstrays)
    | Else => exact .inl (partial_readElse h hcontrol hread)
    | End => exact partial_readEnd h hcontrol hread hstrays
    | Br depth => exact .inl (partial_readBr h hcontrol hread)
    | BrIf depth => exact .inl (partial_readBrIf h hcontrol hread hstrays)
    | BrTable depths defaultDepth => exact .inl (partial_readBrTable h hcontrol hread)
    | Return => exact .inl (partial_readReturn h hcontrol hread)
    | Unreachable =>
      left
      cases hread
      obtain ⟨seg, low, hvalue, hbase⟩ := h.split hcontrol
      rw [hvalue]
      exact h.branch hcontrol hvalue hbase seg ⟨seg, .self _ seg, fun ts' => .unreachable seg ts'⟩
    | Drop =>
      left
      rw [bind_eq_ok] at hread
      obtain ⟨⟨t, stack⟩, hpop, hread⟩ := hread
      cases hread
      exact partial_readDrop h hcontrol hpop
    | Select => exact .inl (partial_readSelect h hcontrol hread)
    | SelectTyped types => exact .inl (partial_readSelectTyped h hcontrol hread)
    | GetLocal id =>
      left
      rw [bind_eq_ok] at hread
      obtain ⟨t, ht, hread⟩ := hread
      cases hread
      obtain ⟨seg, low, hvalue, hbase⟩ := h.split hcontrol
      rw [hvalue, ← cons_append]
      refine h.step hcontrol hvalue hbase fun ts' hts' => ?_
      obtain ⟨ts, rfl, hts⟩ := @Full.of_append _ [.val t] _ _ hts'
      exact ⟨ts, hts, (Derives.getLocal (getLocalType_eq_ok.mp ht)).frame ts⟩
    | SetLocal id =>
      left
      rw [bind_eq_ok] at hread
      obtain ⟨t, ht, hread⟩ := hread
      exact partial_readFixed h hcontrol hread fun labels => .setLocal (getLocalType_eq_ok.mp ht)
    | TeeLocal id =>
      left
      rw [bind_eq_ok] at hread
      obtain ⟨t, ht, hread⟩ := hread
      rw [bind_eq_ok] at hread
      obtain ⟨stack, hpop, hread⟩ := hread
      cases hread
      have ht := getLocalType_eq_ok.mp ht
      have hstrict hmeets := hstrays ⟨block, outer, hcontrol, t, ht, hmeets⟩
      exact partial_popThenPush h hcontrol hpop hstrict (.teeLocal ht)
    | Call funcIndex =>
      left
      simp only [] at hread
      split at hread
      next => contradiction
      next funcType hfunc => exact partial_readFixed h hcontrol hread fun labels => .call hfunc
    | Fixed operandTypes resultTypes =>
      exact .inl (partial_readFixed h hcontrol hread fun labels => .fixed operandTypes resultTypes)

end Operands

theorem readOps_append : readOps env locals it (ops ++ more) = (readOps env locals it ops >>= (readOps env locals · more)) := by
  exact foldlM_append

theorem readOps_concat : readOps env locals it (ops ++ [op]) = (readOps env locals it ops >>= (readOp env locals · op)) := by
  rw [readOps_append]
  congr 1
  funext it'
  exact bind_pure _

def Faithful (env : ModuleEnvironment) (locals : List ValType) (it : OpIter) (ops : List Op) : Prop :=
  ∀ pre op post it', ops = pre ++ op :: post → readOps env locals it pre = .ok it' → ¬Strays env locals it' op

theorem Faithful.left (h : Faithful env locals it (ops ++ more)) : Faithful env locals it ops := by
  rintro pre op post it' rfl
  exact h pre op (post ++ more) it' (by rw [append_assoc, cons_append])

theorem Faithful.right (h : Faithful env locals it (ops ++ more)) (hread : readOps env locals it ops = .ok it')
    : Faithful env locals it' more := by
  rintro pre op post it'' rfl hpre
  refine h (ops ++ pre) op post it'' (append_assoc ..).symm ?_
  rw [readOps_append, bind_eq_ok]
  exact ⟨it', hread, hpre⟩

theorem Faithful.head (h : Faithful env locals it (op :: ops)) : ¬Strays env locals it op :=
  h [] op ops it rfl rfl

theorem readOps_partial (h : Faithful env locals (readFunctionStart results) ops)
    (hread : readOps env locals (readFunctionStart results) ops = .ok it)
    : PartialAt env locals results ops it ∨ it.controlStack = [] ∧ DerivesBody env locals results ops := by
  induction ops using List.reverseRecOn generalizing it with
  | nil =>
    cases hread
    refine .inl (.body rfl rfl rfl ?_)
    rintro ts ⟨r, hr, rfl⟩
    rw [hr rfl]
    exact .nil []
  | append_singleton ops op ih =>
    rw [readOps_concat, bind_eq_ok] at hread
    obtain ⟨it1, hread1, hread⟩ := hread
    rcases ih h.left hread1 with hpartial | ⟨hnil, -⟩
    . exact partial_readOp hpartial hread (h ops op [] it1 rfl hread1)
    unfold readOp at hread
    rw [hnil] at hread
    contradiction

theorem acceptsBody_eq_true : acceptsBody env locals results ops = true ↔ ∃ it,
    readOps env locals (readFunctionStart results) ops = .ok it ∧ it.controlStack = [] := by
  unfold acceptsBody
  cases readOps env locals (readFunctionStart results) ops with
  | error => exact ⟨nofun, nofun⟩
  | ok it =>
    simp only [List.isEmpty_iff]
    constructor
    . intro h
      exact ⟨it, rfl, h⟩
    . rintro ⟨it', ⟨⟩, h⟩
      exact h

theorem derivesBody_of_acceptsBody (h : Faithful env locals (readFunctionStart results) ops)
    (haccepts : acceptsBody env locals results ops = true) : DerivesBody env locals results ops := by
  obtain ⟨it, hread, hnil⟩ := acceptsBody_eq_true.mp haccepts
  rcases readOps_partial h hread with hpartial | ⟨-, hderives⟩
  . unfold PartialAt at hpartial
    rw [hnil] at hpartial
    cases hpartial
  . exact hderives

end

end OpIter

end SpiderMonkey.Wasm
