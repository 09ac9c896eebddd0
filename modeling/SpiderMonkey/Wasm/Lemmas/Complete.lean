import SpiderMonkey.Wasm.Lemmas.Sound

/-!
This module contains the run of the iterator over what the typing rules derive.
-/

namespace SpiderMonkey.Wasm

namespace OpIter

open List

variable {env : ModuleEnvironment} {locals : List ValType} {labels : List (List ValType)}

def Leaves (env : ModuleEnvironment) (locals : List ValType) (it : OpIter) (ops : List Op) (block : Control)
    (outer : List Control) (low b : List StackType) : Prop :=
  ∃ seg poly, readOps env locals it ops
      = .ok ⟨seg ++ low, it.elseParamStack, { block with polymorphicBase := poly } :: outer⟩
    ∧ Fits env poly seg b

variable {block : Control} {outer : List Control} {seg low elses a b r : List StackType} {op : Op}
variable {it it' : OpIter} {ops more : List Op}

theorem readOps_cons : readOps env locals it (op :: ops) = .ok it'
    ↔ ∃ it₁, readOp env locals it op = .ok it₁ ∧ readOps env locals it₁ ops = .ok it' := by
  unfold readOps
  rw [foldlM_cons, bind_eq_ok]

theorem readOps_singleton : readOps env locals it [op] = readOp env locals it op := by
  unfold readOps
  rw [foldlM_cons]
  exact bind_pure _

theorem Leaves.of_readOp (h : readOp env locals it op
      = .ok ⟨seg ++ low, it.elseParamStack, { block with polymorphicBase := poly } :: outer⟩)
    (hfits : Fits env poly seg b) : Leaves env locals it [op] block outer low b :=
  ⟨seg, poly, readOps_singleton.trans h, hfits⟩

theorem Leaves.of_branch (hbase : block.valueStackBase = low.length)
    (h : readOp env locals it op = .ok (it.afterUnconditionalBranch block outer (top ++ low)))
    : Leaves env locals it [op] block outer low b := by
  refine @Leaves.of_readOp _ _ _ _ [] _ _ _ _ true ?_ (.base nofun)
  rw [h]
  unfold afterUnconditionalBranch
  rw [shrinkTo_append hbase]
  rfl

theorem fits_known {poly : Bool} {rest ts : List StackType} {known types : List ValType}
    (h : List.Forall₂ (isSubtypeOf env · · = true) known types) (hrest : Fits env poly rest ts)
    : Fits env poly (stackOf known ++ rest) (stackOf types ++ ts) :=
  .append_top (le_stackOf_iff.mpr h) hrest

section Operands

variable (hbase : block.valueStackBase = low.length)

include hbase in
theorem leaves_readFixed
    (hread : ∀ it, it.controlStack = block :: outer → readOp env locals it op = readFixed env it block operandTypes resultTypes)
    (hfits : Fits env block.polymorphicBase seg (stackOf operandTypes ++ r))
    : Leaves env locals ⟨seg ++ low, elses, block :: outer⟩ [op] block outer low (stackOf resultTypes ++ r) := by
  rw [← map_val_reverse] at hfits
  obtain ⟨seg', hpop, hfits'⟩ := popEach_fits hbase hfits
  refine @Leaves.of_readOp _ _ _ _ (stackOf resultTypes ++ seg') _ _ _ _ block.polymorphicBase ?_
    (.append_top (le_refl_all env _) hfits')
  rw [hread _ rfl]
  unfold readFixed popWithTypes
  rw [bind_eq_ok]
  refine ⟨_, hpop, ?_⟩
  unfold push
  rw [append_assoc]
  rfl

include hbase in
theorem pushControl_fits {kind : LabelKind} {type : BlockType}
    (hfits : Fits env block.polymorphicBase seg (stackOf type.params ++ r))
    : ∃ known rest, pushControl env ⟨seg ++ low, elses, block :: outer⟩ block kind type
        = .ok ⟨stackOf known ++ (rest ++ low), elses, ⟨kind, type, (rest ++ low).length, false⟩ :: block :: outer⟩
      ∧ List.Forall₂ (isSubtypeOf env · · = true) known type.params ∧ Fits env block.polymorphicBase rest r := by
  obtain ⟨known, rest, hpop, hsub, hrest⟩ := popThenPushType_fits hbase hfits
  refine ⟨known, rest, ?_, hsub, hrest⟩
  unfold pushControl
  rw [bind_eq_ok]
  refine ⟨_, hpop, ?_⟩
  rw [length_append, stackOf_length, hsub.length_eq, Nat.add_sub_cancel_left]

include hbase in
theorem checkStackAtEndOfBlock_fits {it : OpIter} (hvalue : it.valueStack = seg ++ low)
    (hfits : Fits env block.polymorphicBase seg (stackOf block.type.results))
    : ∃ known, checkStackAtEndOfBlock env it block = .ok (stackOf known ++ low)
      ∧ List.Forall₂ (isSubtypeOf env · · = true) known block.type.results := by
  have hlen := hfits.length_le
  rw [stackOf_length] at hlen
  rw [← append_nil (stackOf block.type.results)] at hfits
  obtain ⟨known, rest, hpop, hsub, hrest⟩ := popThenPushType_fits hbase hfits
  have hrest := length_eq_zero_iff.mp (Nat.le_zero.mp hrest.length_le)
  subst hrest
  refine ⟨known, ?_, hsub⟩
  unfold checkStackAtEndOfBlock
  rw [hvalue, if_neg (by rw [hbase, length_append]; omega)]
  exact hpop

end Operands

theorem leaves_of_inner {inner : Control} {outer' : List Control} {elses' : List StackType}
    (hinner : Leaves env locals it ops inner outer' low (stackOf inner.type.results))
    (hbase : inner.valueStackBase = low.length) (houter : outer' = block :: outer)
    (hkind : inner.kind = .Then → inner.type.params = inner.type.results)
    (helses : if inner.kind = .Then then it.elseParamStack.drop inner.type.params.length = elses'
      else it.elseParamStack = elses')
    : ∃ known, readOps env locals it (ops ++ [.End]) = .ok ⟨stackOf known ++ low, elses', block :: outer⟩
      ∧ List.Forall₂ (isSubtypeOf env · · = true) known inner.type.results := by
  obtain ⟨seg, poly, hread, hfits⟩ := hinner
  obtain ⟨known, hcheck, hsub⟩ := @checkStackAtEndOfBlock_fits _ { inner with polymorphicBase := poly } _ _ hbase
    ⟨seg ++ low, it.elseParamStack, { inner with polymorphicBase := poly } :: outer'⟩ rfl hfits
  refine ⟨known, ?_, hsub⟩
  rw [readOps_concat, bind_eq_ok]
  refine ⟨_, hread, ?_⟩
  unfold readOp
  simp only []
  unfold readEnd
  rw [bind_eq_ok]
  refine ⟨_, hcheck, ?_⟩
  simp only []
  split at helses
  next hthen =>
    rw [if_pos hthen, if_neg (not_not.mpr (hkind hthen)), helses, houter]
  next hthen => rw [if_neg hthen, helses, houter]

theorem of_getElem?_labelsOf {depth : Nat} (h : (labelsOf controls)[depth]? = some label)
    : ∃ target, controls[depth]? = some target ∧ target.branchTargetType = label := by
  unfold labelsOf at h
  rw [List.getElem?_map, Option.map_eq_some_iff] at h
  exact h

theorem popWithType_mem {stack : List StackType}
    (h : popWithType env block e (seg ++ low) = .ok (stack ++ low)) (hmem : t ∈ stack) : t ∈ seg := by
  have hrest : ∃ s, popStackType block (seg ++ low) = .ok (s, stack ++ low) := by
    unfold popWithType at h
    rw [bind_eq_ok] at h
    obtain ⟨⟨s, rest⟩, hpop, h⟩ := h
    refine ⟨s, ?_⟩
    cases s with
    | tvar =>
      cases h
      exact hpop
    | val a =>
      simp only [] at h
      rw [bind_eq_ok] at h
      obtain ⟨_, _, h⟩ := h
      cases h
      exact hpop
  obtain ⟨s, hrest⟩ := hrest
  unfold popStackType at hrest
  split at hrest
  next =>
    split at hrest
    next =>
      rw [Except.ok.injEq, Prod.mk.injEq] at hrest
      exact append_cancel_right hrest.2 ▸ hmem
    next =>
      unfold failEmptyStack at hrest
      split at hrest <;> contradiction
  next =>
    split at hrest
    next t' rest heq =>
      rw [Except.ok.injEq, Prod.mk.injEq] at hrest
      rw [hrest.2, ← cons_append] at heq
      rw [append_cancel_right heq]
      exact mem_cons_of_mem _ hmem
    next =>
      unfold failEmptyStack at hrest
      split at hrest <;> contradiction

theorem exists_of_zip {types label label' : List ValType}
    (h : List.Forall₂ (isSubtypeOf env · · = true) types label)
    (h' : List.Forall₂ (isSubtypeOf env · · = true) types label') (hx : x ∈ label.zip label')
    : ∃ t, isSubtypeOf env t x.1 = true ∧ isSubtypeOf env t x.2 = true := by
  induction h generalizing label' with
  | nil => contradiction
  | @cons t _ _ _ ht _ ih =>
    cases h' with
    | cons ht' h' =>
      rcases mem_cons.mp hx with rfl | hx
      . exact ⟨t, ht, ht'⟩
      . exact ih h' hx

theorem forall₂_of_zip (hlen : label.length = label'.length)
    (h : ∀ x ∈ label.zip label', isSubtypeOf env x.1 x.2 = true)
    : List.Forall₂ (isSubtypeOf env · · = true) label label' :=
  forall₂_iff_zip.mpr ⟨hlen, fun hx => h _ hx⟩

theorem checkBrTableEntries_fits {types : List ValType} (hbase : block.valueStackBase = low.length)
    (hne : depths ≠ []) (hfits : Fits env block.polymorphicBase seg (stackOf types ++ r))
    (hlabel : ∀ depth ∈ depths, ∃ target, it.controlStack[depth]? = some target
      ∧ List.Forall₂ (isSubtypeOf env · · = true) types target.branchTargetType)
    (hexact : block.polymorphicBase = true ∨ .tvar ∈ seg → ∀ depth ∈ depths, ∀ depth' ∈ depths, ∀ target target',
      it.controlStack[depth]? = some target → it.controlStack[depth']? = some target'
        → List.Forall₂ (isSubtypeOf env · · = true) target.branchTargetType target'.branchTargetType)
    : ∃ stack, checkBrTableEntries env it block depths none (seg ++ low) = .ok stack ∧ ∃ top, stack = top ++ low := by
  cases depths with
  | nil => contradiction
  | cons depth depths =>
    obtain ⟨target, htarget, hsub⟩ := hlabel depth mem_cons_self
    obtain ⟨known, rest, hpop, -, hknown⟩ := popThenPushType_below hbase hfits hsub
    have hbelow : block.valueStackBase ≤ (rest ++ low).length := by
      rw [hbase, length_append]
      exact Nat.le_add_left ..
    have hall : ∀ depth' ∈ depth :: depths, ∃ target', it.controlStack[depth']? = some target'
        ∧ List.Forall₂ (isSubtypeOf env · · = true) known target'.branchTargetType := by
      intro depth' hdepth'
      obtain ⟨target', htarget', hsub'⟩ := hlabel depth' hdepth'
      refine ⟨target', htarget', hknown _ hsub' fun htvar => ?_⟩
      exact hexact htvar depth mem_cons_self depth' hdepth' target target' htarget htarget'
    obtain ⟨⟨target', htarget', hlen⟩, hrest⟩ := forall_mem_cons.mp hall
    rw [htarget, Option.some.injEq] at htarget'
    subst htarget'
    refine ⟨stackOf known ++ (rest ++ low), ?_, stackOf known ++ rest, (append_assoc ..).symm⟩
    unfold checkBrTableEntries
    rw [bind_eq_ok]
    refine ⟨target, getControl_eq_ok.mpr htarget, ?_⟩
    simp only [Option.any_none, Bool.false_eq_true, if_false]
    rw [bind_eq_ok]
    refine ⟨_, hpop, ?_⟩
    rw [← hlen.length_eq]
    exact (checkBrTableEntries_known hbelow).mpr ⟨rfl, hrest⟩

section Rules

variable (hbase : block.valueStackBase = low.length)

def Reads (env : ModuleEnvironment) (locals : List ValType) (labels : List (List ValType)) (ops : List Op)
    (a b : List StackType) : Prop :=
  ∀ {block : Control} {outer : List Control} {seg low elses r : List StackType},
    block.valueStackBase = low.length → labelsOf (block :: outer) = labels
      → (∀ body ∈ (block :: outer).getLast?, body.kind ≠ .Loop)
      → Fits env block.polymorphicBase seg (a ++ r)
      → Faithful env locals ⟨seg ++ low, elses, block :: outer⟩ ops
      → Leaves env locals ⟨seg ++ low, elses, block :: outer⟩ ops block outer low (b ++ r)

theorem getLast?_cons_ne_loop {inner : Control}
    (hlast : ∀ body ∈ (block :: outer).getLast?, body.kind ≠ .Loop)
    : ∀ body ∈ (inner :: block :: outer).getLast?, body.kind ≠ .Loop := by
  rw [List.getLast?_cons_cons]
  exact hlast

theorem Reads.inner {inner : Control} {types types' known : List ValType}
    (h : Reads env locals (inner.branchTargetType :: labels) ops (stackOf types) (stackOf types'))
    (hlabels : labelsOf (block :: outer) = labels) (hlast : ∀ body ∈ (block :: outer).getLast?, body.kind ≠ .Loop)
    (hbase : inner.valueStackBase = low.length) (hknown : List.Forall₂ (isSubtypeOf env · · = true) known types)
    (hfaithful : Faithful env locals ⟨stackOf known ++ low, elses, inner :: block :: outer⟩ ops)
    : Leaves env locals ⟨stackOf known ++ low, elses, inner :: block :: outer⟩ ops inner (block :: outer) low
      (stackOf types') := by
  have hfits := fits_known hknown (@Fits.base _ inner.polymorphicBase [] fun _ => rfl)
  have hlabels : labelsOf (inner :: block :: outer) = inner.branchTargetType :: labels := by
    rw [← hlabels]
    rfl
  rw [append_nil] at hfits
  have hinner := h hbase hlabels (getLast?_cons_ne_loop hlast) hfits hfaithful
  rw [append_nil] at hinner
  exact hinner

theorem reads_block {op : Op} {code : BlockCode} {type : BlockType} {kind : LabelKind} {body : List Op}
    (htype : readBlockType env code = .ok type)
    (hop : op = .Block code ∧ kind = .Block ∨ op = .Loop code ∧ kind = .Loop)
    (hbody : Reads env locals ((if kind = .Loop then type.params else type.results) :: labels) body
      (stackOf type.params) (stackOf type.results))
    : Reads env locals labels (op :: (body ++ [.End])) (stackOf type.params) (stackOf type.results) := by
  intro block outer seg low elses r hbase hlabels hlast hfits hfaithful
  obtain ⟨known, rest, hpush, hknown, hrest⟩ := @pushControl_fits _ _ outer _ _ elses _ hbase kind _ hfits
  have hread : readOp env locals ⟨seg ++ low, elses, block :: outer⟩ op
      = .ok ⟨stackOf known ++ (rest ++ low), elses, ⟨kind, type, (rest ++ low).length, false⟩ :: block :: outer⟩ := by
    rcases hop with ⟨rfl, rfl⟩ | ⟨rfl, rfl⟩ <;> exact bind_eq_ok.mpr ⟨type, htype, hpush⟩
  have hthen : kind ≠ .Then := by rcases hop with ⟨-, rfl⟩ | ⟨-, rfl⟩ <;> exact nofun
  have hfaithful : Faithful env locals _ (body ++ [.End]) :=
    @Faithful.right _ _ [op] _ _ _ hfaithful (readOps_singleton.trans hread)
  have hinner := @Reads.inner _ _ _ _ _ _ _ _ ⟨kind, type, (rest ++ low).length, false⟩ _ _ _
    hbody hlabels hlast rfl hknown hfaithful.left
  obtain ⟨known', hread', hknown'⟩ := @leaves_of_inner _ _ _ _ _ _ _ _ _ elses hinner rfl rfl
    (absurd · hthen) (by rw [if_neg hthen])
  refine ⟨stackOf known' ++ rest, block.polymorphicBase, ?_, fits_known hknown' hrest⟩
  rw [append_assoc]
  exact readOps_cons.mpr ⟨_, hread, hread'⟩

theorem readIf_fits {code : BlockCode} {type : BlockType} (htype : readBlockType env code = .ok type)
    (hbase : block.valueStackBase = low.length)
    (hfits : Fits env block.polymorphicBase seg (.val .I32 :: (stackOf type.params ++ r)))
    : ∃ known rest, readOp env locals ⟨seg ++ low, elses, block :: outer⟩ (.If code)
        = .ok ⟨stackOf known ++ (rest ++ low), stackOf known ++ elses,
          ⟨.Then, type, (rest ++ low).length, false⟩ :: block :: outer⟩
      ∧ List.Forall₂ (isSubtypeOf env · · = true) known type.params ∧ Fits env block.polymorphicBase rest r := by
  obtain ⟨seg₁, hpop, hfits₁⟩ := popWithType_fits hbase hfits (.refl env _)
  obtain ⟨known, rest, hpush, hknown, hrest⟩ := @pushControl_fits _ _ outer _ _ elses _ hbase .Then _ hfits₁
  refine ⟨known, rest, ?_, hknown, hrest⟩
  refine bind_eq_ok.mpr ⟨type, htype, bind_eq_ok.mpr ⟨_, hpop, bind_eq_ok.mpr ⟨_, hpush, ?_⟩⟩⟩
  rw [← hknown.length_eq, ← stackOf_length, take_left' rfl]

theorem reads_ifEnd {code : BlockCode} {type : BlockType} {body : List Op}
    (htype : readBlockType env code = .ok type) (heq : type.params = type.results)
    (hbody : Reads env locals (type.results :: labels) body (stackOf type.params) (stackOf type.results))
    : Reads env locals labels (.If code :: (body ++ [.End])) (.val .I32 :: stackOf type.params)
      (stackOf type.results) := by
  intro block outer seg low elses r hbase hlabels hlast hfits hfaithful
  obtain ⟨known, rest, hread, hknown, hrest⟩ := @readIf_fits _ locals _ outer _ _ elses _ _ _ htype hbase hfits
  have hfaithful : Faithful env locals _ (body ++ [.End]) :=
    @Faithful.right _ _ [.If code] _ _ _ hfaithful (readOps_singleton.trans hread)
  have hinner := @Reads.inner _ _ _ _ _ _ _ _ ⟨.Then, type, (rest ++ low).length, false⟩ _ _ _
    hbody hlabels hlast rfl hknown hfaithful.left
  obtain ⟨known', hread', hknown'⟩ := @leaves_of_inner _ _ _ _ _ _ _ _ _ elses hinner rfl rfl (fun _ => heq) (by
    rw [if_pos rfl]
    exact drop_left' ((stackOf_length known).trans hknown.length_eq))
  refine ⟨stackOf known' ++ rest, block.polymorphicBase, ?_, fits_known hknown' hrest⟩
  rw [append_assoc]
  exact readOps_cons.mpr ⟨_, hread, hread'⟩

theorem reads_ifElse {code : BlockCode} {type : BlockType} {body body' : List Op}
    (htype : readBlockType env code = .ok type)
    (hbody : Reads env locals (type.results :: labels) body (stackOf type.params) (stackOf type.results))
    (hbody' : Reads env locals (type.results :: labels) body' (stackOf type.params) (stackOf type.results))
    : Reads env locals labels (.If code :: (body ++ .Else :: (body' ++ [.End]))) (.val .I32 :: stackOf type.params)
      (stackOf type.results) := by
  intro block outer seg low elses r hbase hlabels hlast hfits hfaithful
  obtain ⟨known, rest, hread, hknown, hrest⟩ := @readIf_fits _ locals _ outer _ _ elses _ _ _ htype hbase hfits
  have hlen : (stackOf known).length = type.params.length := (stackOf_length known).trans hknown.length_eq
  have hfaithful : Faithful env locals _ (body ++ .Else :: (body' ++ [.End])) :=
    @Faithful.right _ _ [.If code] _ _ _ hfaithful (readOps_singleton.trans hread)
  have hinner := @Reads.inner _ _ _ _ _ _ _ _ ⟨.Then, type, (rest ++ low).length, false⟩ _ _ _
    hbody hlabels hlast rfl hknown hfaithful.left
  obtain ⟨seg₁, poly₁, hthen, hfits₁⟩ := hinner
  have hfaithful := hfaithful.right hthen
  obtain ⟨known₁, hcheck, -⟩ := @checkStackAtEndOfBlock_fits env ⟨.Then, type, (rest ++ low).length, poly₁⟩ seg₁
    (rest ++ low) rfl ⟨seg₁ ++ (rest ++ low), stackOf known ++ elses, ⟨.Then, type, (rest ++ low).length, poly₁⟩ :: block :: outer⟩ rfl hfits₁
  have helse : readOp env locals
      ⟨seg₁ ++ (rest ++ low), stackOf known ++ elses, ⟨.Then, type, (rest ++ low).length, poly₁⟩ :: block :: outer⟩ .Else
      = .ok ⟨stackOf known ++ (rest ++ low), elses, ⟨.Else, type, (rest ++ low).length, false⟩ :: block :: outer⟩ := by
    unfold readOp
    simp only []
    unfold readElse
    rw [if_neg (by exact fun h => h rfl), bind_eq_ok]
    refine ⟨_, hcheck, ?_⟩
    rw [shrinkTo_append rfl]
    simp only []
    rw [take_left' hlen, drop_left' hlen]
  have hfaithful : Faithful env locals _ (body' ++ [.End]) :=
    @Faithful.right _ _ [.Else] _ _ _ hfaithful (readOps_singleton.trans helse)
  have hinner := @Reads.inner _ _ _ _ _ _ _ _ ⟨.Else, type, (rest ++ low).length, false⟩ _ _ _
    hbody' hlabels hlast rfl hknown hfaithful.left
  obtain ⟨known', hread', hknown'⟩ := @leaves_of_inner _ _ _ _ _ _ _ _ _ elses hinner rfl rfl
    (by exact nofun) (by rw [if_neg (by exact nofun)])
  refine ⟨stackOf known' ++ rest, block.polymorphicBase, ?_, fits_known hknown' hrest⟩
  rw [append_assoc]
  refine readOps_cons.mpr ⟨_, hread, ?_⟩
  rw [readOps_append, bind_eq_ok]
  exact ⟨_, hthen, readOps_cons.mpr ⟨_, helse, hread'⟩⟩

theorem reads_fixed (hread : ∀ block outer it, it.controlStack = block :: outer
      → readOp env locals it op = readFixed env it block operandTypes resultTypes)
    : Reads env locals labels [op] (stackOf operandTypes) (stackOf resultTypes) := by
  intro block outer seg low elses r hbase _ _ hfits _
  exact leaves_readFixed hbase (hread block outer) hfits

theorem reads_br {depth : Nat} (hlabel : labels[depth]? = some label)
    : Reads env locals labels [.Br depth] (stackOf label ++ a) b := by
  intro block outer seg low elses r hbase hlabels _ hfits _
  rw [← hlabels] at hlabel
  obtain ⟨target, htarget, hlabel⟩ := of_getElem?_labelsOf hlabel
  subst hlabel
  rw [append_assoc] at hfits
  obtain ⟨known, rest, hpop, -, -⟩ := popThenPushType_fits hbase hfits
  refine @Leaves.of_branch _ _ _ _ _ _ _ _ (stackOf known ++ rest) hbase ?_
  rw [append_assoc]
  exact bind_eq_ok.mpr ⟨_, bind_eq_ok.mpr ⟨target, getControl_eq_ok.mpr htarget, hpop⟩, rfl⟩

theorem reads_brIf {depth : Nat} (hlabel : labels[depth]? = some label)
    : Reads env locals labels [.BrIf depth] (.val .I32 :: stackOf label) (stackOf label) := by
  intro block outer seg low elses r hbase hlabels _ hfits _
  rw [← hlabels] at hlabel
  obtain ⟨target, htarget, hlabel⟩ := of_getElem?_labelsOf hlabel
  subst hlabel
  obtain ⟨seg₁, hpop₁, hfits₁⟩ := popWithType_fits hbase hfits (.refl env _)
  obtain ⟨known, rest, hpop, hknown, hrest⟩ := popThenPushType_fits hbase hfits₁
  refine @Leaves.of_readOp _ _ _ _ (stackOf known ++ rest) _ _ _ _ block.polymorphicBase ?_ (fits_known hknown hrest)
  rw [append_assoc]
  refine bind_eq_ok.mpr ⟨_, hpop₁, bind_eq_ok.mpr ⟨_, ?_, rfl⟩⟩
  exact bind_eq_ok.mpr ⟨target, getControl_eq_ok.mpr htarget, hpop⟩

theorem reads_brTable {types : List ValType} (hdepths : depths.length ≤ MaxBrTableElems)
    (hlabel : ∀ depth ∈ depths ++ [defaultDepth], ∃ label, labels[depth]? = some label
      ∧ List.Forall₂ (isSubtypeOf env · · = true) types label)
    : Reads env locals labels [.BrTable depths defaultDepth] (.val .I32 :: (stackOf types ++ a)) b := by
  intro block outer seg low elses r hbase hlabels _ hfits hfaithful
  have hstrays := hfaithful.head
  have hlabel : ∀ depth ∈ depths ++ [defaultDepth], ∃ target, (block :: outer)[depth]? = some target
      ∧ List.Forall₂ (isSubtypeOf env · · = true) types target.branchTargetType := by
    intro depth hdepth
    obtain ⟨label, hlabel, hsub⟩ := hlabel depth hdepth
    rw [← hlabels] at hlabel
    obtain ⟨target, htarget, rfl⟩ := of_getElem?_labelsOf hlabel
    exact ⟨target, htarget, hsub⟩
  rw [cons_append, append_assoc] at hfits
  obtain ⟨seg₁, hpop₁, hfits₁⟩ := popWithType_fits hbase hfits (.refl env _)
  have hpoly : block.polymorphicBase = true ∨ .tvar ∈ seg₁ → block.polymorphicBase = true ∨ .tvar ∈ seg ++ low := by
    refine Or.imp_right fun hmem => mem_append_left low (popWithType_mem hpop₁ hmem)
  obtain ⟨stack, hentries, rest, hstack⟩ := @checkBrTableEntries_fits _ _ _ _ _ ⟨seg ++ low, elses, block :: outer⟩
    _ _ hbase (by simp) hfits₁ hlabel fun htvar depth hdepth depth' hdepth' target target' htarget htarget' => by
      obtain ⟨_, htypes, hsub⟩ := hlabel depth hdepth
      rw [htarget, Option.some.injEq] at htypes
      subst htypes
      obtain ⟨_, htypes, hsub'⟩ := hlabel depth' hdepth'
      rw [htarget', Option.some.injEq] at htypes
      subst htypes
      refine forall₂_of_zip (hsub.length_eq.symm.trans hsub'.length_eq) fun x hx => ?_
      obtain ⟨t, ht, ht'⟩ := exists_of_zip hsub hsub' hx
      by_contra hno
      rw [Bool.not_eq_true] at hno
      exact hstrays ⟨block, outer, rfl, hpoly htvar, depth, hdepth, depth', hdepth', target, target', htarget,
        htarget', x, hx, t, ht, ht', hno⟩
  refine @Leaves.of_branch _ _ _ _ _ _ _ _ rest hbase ?_
  unfold readOp
  simp only []
  unfold readBrTable
  rw [if_neg (Nat.not_lt.mpr hdepths), bind_eq_ok]
  refine ⟨_, hpop₁, ?_⟩
  rw [bind_eq_ok]
  exact ⟨stack, hentries, by rw [hstack]⟩

theorem reads_return {results : List ValType} (hresults : labels.getLast? = some results)
    : Reads env locals labels [.Return] (stackOf results ++ a) b := by
  intro block outer seg low elses r hbase hlabels hlast hfits _
  have hbody : (block :: outer).getLast? = some ((block :: outer).getLast (cons_ne_nil block outer)) :=
    List.getLast?_eq_some_getLast _
  have hkind := hlast _ hbody
  rw [← hlabels] at hresults
  unfold labelsOf at hresults
  rw [List.getLast?_map, hbody, Option.map_some, Option.some.injEq, branchTargetType_of_kind hkind] at hresults
  rw [append_assoc, ← map_val_reverse, ← hresults] at hfits
  obtain ⟨seg', hpop, -⟩ := popEach_fits hbase hfits
  refine @Leaves.of_branch _ _ _ _ _ _ _ _ seg' hbase ?_
  exact bind_eq_ok.mpr ⟨_, hpop, rfl⟩

theorem reads_drop (t : StackType) : Reads env locals labels [.Drop] [t] [] := by
  intro block outer seg low elses r hbase _ _ hfits _
  obtain ⟨s, seg', hpop, -, hfits'⟩ := popStackType_fits hbase hfits
  refine @Leaves.of_readOp _ _ _ _ seg' _ _ _ _ block.polymorphicBase ?_ hfits'
  exact bind_eq_ok.mpr ⟨_, hpop, rfl⟩

theorem isValidForUntypedSelect_of_le (hle : StackType.Le env s t)
    (ht : t.isValidForUntypedSelect = true) : s = .tvar ∨ s = t := by
  cases hle with
  | tvar => exact .inl rfl
  | @val a b hsub =>
    right
    rcases isSubtypeOf_iff.mp hsub with rfl | ⟨-, fields, -, rfl | ⟨other, hb, -⟩⟩
    . rfl
    . contradiction
    have href := isReference_of_structType? hb
    cases b with
    | Ref rt => contradiction
    | _ => contradiction

theorem readSelect_of_pops (hpop₁ : popWithType env block .I32 it.valueStack = .ok stack₁)
    (hpop₂ : popStackType block stack₁ = .ok (falseType, stack₂))
    (hpop₃ : popStackType block stack₂ = .ok (trueType, stack₃)) (ht : t.isValidForUntypedSelect = true)
    (hfalse : falseType = .tvar ∨ falseType = t) (htrue : trueType = .tvar ∨ trueType = t)
    : ∃ s, (s = .tvar ∨ s = t) ∧ readSelect env it block = .ok { it with valueStack := s :: stack₃ } := by
  have hvalid (s : StackType) (hs : s = .tvar ∨ s = t) : s.isValidForUntypedSelect = true := by
    rcases hs with rfl | rfl
    . rfl
    . exact ht
  unfold readSelect
  simp only [hpop₁, hpop₂, hpop₃, bind, Except.bind, hvalid _ hfalse, hvalid _ htrue, Bool.not_true,
    Bool.or_self, Bool.false_eq_true, if_false]
  split
  next => exact ⟨trueType, htrue, rfl⟩
  next hne =>
    have hfalse := hfalse.resolve_left hne
    refine ⟨falseType, .inr hfalse, if_pos ?_⟩
    rw [hfalse]
    exact htrue.imp_right Eq.symm

theorem reads_select (ht : t.isValidForUntypedSelect = true)
    : Reads env locals labels [.Select] [.val .I32, t, t] [t] := by
  intro block outer seg low elses r hbase _ _ hfits _
  obtain ⟨seg₁, hpop₁, hfits₁⟩ := popWithType_fits hbase hfits (.refl env _)
  obtain ⟨falseType, seg₂, hpop₂, hfalse, hfits₂⟩ := popStackType_fits hbase hfits₁
  obtain ⟨trueType, seg₃, hpop₃, htrue, hfits₃⟩ := popStackType_fits hbase hfits₂
  have hfalse := isValidForUntypedSelect_of_le hfalse ht
  have htrue := isValidForUntypedSelect_of_le htrue ht
  obtain ⟨s, hs, hselect⟩ := @readSelect_of_pops env _ ⟨seg ++ low, elses, block :: outer⟩ _ _ _ _ _ _
    hpop₁ hpop₂ hpop₃ ht hfalse htrue
  refine @Leaves.of_readOp _ _ _ _ (s :: seg₃) _ _ _ _ block.polymorphicBase hselect (.cons ?_ hfits₃)
  rcases hs with rfl | rfl
  . exact .tvar _
  . exact .refl env _

theorem reads_selectTyped (t : ValType)
    : Reads env locals labels [.SelectTyped [t]] [.val .I32, .val t, .val t] [.val t] := by
  intro block outer seg low elses r hbase _ _ hfits _
  obtain ⟨seg', hpop, hfits'⟩ := @popEach_fits _ _ _ _ _ [.I32, t, t] hbase hfits
  refine @Leaves.of_readOp _ _ _ _ (.val t :: seg') _ _ _ _ block.polymorphicBase ?_ (.cons (.refl env _) hfits')
  exact bind_eq_ok.mpr ⟨_, hpop, rfl⟩

theorem reads_getLocal {id : Nat} (ht : locals[id]? = some t)
    : Reads env locals labels [.GetLocal id] [] [.val t] := by
  intro block outer seg low elses r hbase _ _ hfits _
  refine @Leaves.of_readOp _ _ _ _ (.val t :: seg) _ _ _ _ block.polymorphicBase ?_ (.cons (.refl env _) hfits)
  exact bind_eq_ok.mpr ⟨t, getLocalType_eq_ok.mpr ht, rfl⟩

theorem reads_teeLocal {id : Nat} (ht : locals[id]? = some t)
    : Reads env locals labels [.TeeLocal id] [.val t] [.val t] := by
  intro block outer seg low elses r hbase _ _ hfits _
  obtain ⟨known, rest, hpop, hknown, hrest⟩ := @popThenPushType_fits _ _ _ _ _ [t] hbase hfits
  refine @Leaves.of_readOp _ _ _ _ (stackOf known ++ rest) _ _ _ _ block.polymorphicBase ?_ (fits_known hknown hrest)
  rw [append_assoc]
  exact bind_eq_ok.mpr ⟨t, getLocalType_eq_ok.mpr ht, bind_eq_ok.mpr ⟨_, hpop, rfl⟩⟩

theorem reads_of_derives (h : Derives env locals labels ops a b) : Reads env locals labels ops a b := by
  induction h with
  | nil a =>
    intro block outer seg low elses r _ _ _ hfits _
    exact ⟨seg, block.polymorphicBase, rfl, hfits⟩
  | append _ _ ih ih' =>
    intro block outer seg low elses r hbase hlabels hlast hfits hfaithful
    obtain ⟨seg', poly, hread, hfits'⟩ := ih hbase hlabels hlast hfits hfaithful.left
    obtain ⟨seg'', poly', hread', hfits''⟩ := @ih' { block with polymorphicBase := poly } _ _ _ _ _ hbase hlabels (by
        cases outer with
        | nil =>
          intro body hbody
          cases hbody
          exact hlast block rfl
        | cons next outer => exact hlast)
      hfits' (hfaithful.right hread)
    refine ⟨seg'', poly', ?_, hfits''⟩
    rw [readOps_append, bind_eq_ok]
    exact ⟨_, hread, hread'⟩
  | frame r' _ ih =>
    intro block outer seg low elses r hbase hlabels hlast hfits hfaithful
    rw [append_assoc] at hfits ⊢
    exact ih hbase hlabels hlast hfits hfaithful
  | sub ha hb _ ih =>
    intro block outer seg low elses r hbase hlabels hlast hfits hfaithful
    obtain ⟨seg', poly, hread, hfits'⟩ := ih hbase hlabels hlast (hfits.sub (rel_append ha (le_refl_all env r)))
      hfaithful
    exact ⟨seg', poly, hread, hfits'.sub (rel_append hb (le_refl_all env r))⟩
  | block htype _ ih => exact reads_block htype (.inl ⟨rfl, rfl⟩) ih
  | loop htype _ ih => exact reads_block htype (.inr ⟨rfl, rfl⟩) ih
  | ifElse htype _ _ ih ih' => exact reads_ifElse htype ih ih'
  | ifEnd htype heq _ ih => exact reads_ifEnd htype heq ih
  | br a b hlabel => exact reads_br hlabel
  | brIf hlabel => exact reads_brIf hlabel
  | brTable a b hdepths hlabel => exact reads_brTable hdepths hlabel
  | «return» a b hresults => exact reads_return hresults
  | unreachable a b =>
    intro block outer seg low elses r hbase _ _ _ _
    exact .of_branch hbase rfl
  | drop t => exact reads_drop t
  | select ht => exact reads_select ht
  | selectTyped t => exact reads_selectTyped t
  | getLocal ht => exact reads_getLocal ht
  | setLocal ht =>
    refine @reads_fixed _ _ _ _ [_] [] fun block outer it hcontrol => ?_
    unfold readOp
    rw [hcontrol]
    simp only []
    rw [getLocalType_eq_ok.mpr ht]
    rfl
  | teeLocal ht => exact reads_teeLocal ht
  | call hfunc =>
    refine reads_fixed fun block outer it hcontrol => ?_
    unfold readOp
    rw [hcontrol]
    simp only []
    rw [hfunc]
  | fixed operandTypes resultTypes =>
    refine reads_fixed fun block outer it hcontrol => ?_
    unfold readOp
    rw [hcontrol]

theorem acceptsBody_of_derivesBody {results : List ValType} (h : Faithful env locals (readFunctionStart results) ops)
    (hderives : DerivesBody env locals results ops) : acceptsBody env locals results ops = true := by
  obtain ⟨body, rfl, hderives⟩ := hderives
  rw [acceptsBody_eq_true]
  obtain ⟨seg, poly, hread, hfits⟩ := @reads_of_derives _ _ _ _ _ _ hderives
    ⟨.Body, ⟨[], results⟩, 0, false⟩ [] [] [] [] [] rfl rfl
    (by
      intro body hbody
      cases hbody
      exact nofun)
    (.base fun _ => rfl) h.left
  rw [append_nil] at hfits
  obtain ⟨known, hcheck, -⟩ := @checkStackAtEndOfBlock_fits _ ⟨.Body, ⟨[], results⟩, 0, poly⟩ _ [] rfl
    ⟨seg ++ [], [], [⟨.Body, ⟨[], results⟩, 0, poly⟩]⟩ rfl hfits
  refine ⟨⟨stackOf known ++ [], [], []⟩, ?_, rfl⟩
  rw [readOps_concat, bind_eq_ok]
  refine ⟨_, hread, ?_⟩
  unfold readOp
  simp only []
  unfold readEnd
  rw [bind_eq_ok]
  exact ⟨_, hcheck, rfl⟩

end Rules

end OpIter

end SpiderMonkey.Wasm
