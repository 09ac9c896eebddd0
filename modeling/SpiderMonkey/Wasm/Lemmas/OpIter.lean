import SpiderMonkey.Wasm.Typing

/-!
This module contains what the pops and pushes of the iterator do to the operands of the innermost block.
-/

namespace SpiderMonkey.Wasm

open List

theorem bind_eq_ok {α β : Type} {x : Except String α} {f : α → Except String β} {b : β}
    : (x >>= f) = .ok b ↔ ∃ a, x = .ok a ∧ f a = .ok b := by
  cases x with
  | error e => exact ⟨nofun, fun ⟨_, h, _⟩ => nomatch h⟩
  | ok a =>
    constructor
    . exact fun h => ⟨a, rfl, h⟩
    . rintro ⟨_, ⟨⟩, h⟩
      exact h

-- The operands `seg` of a block can stand for operands of the types `ts`.
inductive Fits (env : ModuleEnvironment) (poly : Bool) : List StackType → List StackType → Prop where
  | base {ts : List StackType} : (poly = false → ts = []) → Fits env poly [] ts
  | cons {s t : StackType} {seg ts : List StackType}
    : StackType.Le env s t → Fits env poly seg ts → Fits env poly (s :: seg) (t :: ts)

def Full (poly : Bool) (seg ts : List StackType) : Prop := ∃ r, (poly = false → r = []) ∧ ts = seg ++ r

theorem Full.self (poly : Bool) (seg : List StackType) : Full poly seg seg :=
  ⟨[], fun _ => rfl, (append_nil seg).symm⟩

theorem Full.cons (h : Full poly seg ts) (s : StackType)
    : Full poly (s :: seg) (s :: ts) := by
  obtain ⟨r, hr, rfl⟩ := h
  exact ⟨r, hr, rfl⟩

variable {poly : Bool} {seg ts : List StackType}

theorem Full.eq_of_false (h : Full poly seg ts) (hpoly : poly = false)
    : ts = seg := by
  obtain ⟨r, hr, rfl⟩ := h
  rw [hr hpoly, append_nil]

theorem Full.append (h : Full poly seg ts) (top : List StackType)
    : Full poly (top ++ seg) (top ++ ts) := by
  obtain ⟨r, hr, rfl⟩ := h
  exact ⟨r, hr, (append_assoc ..).symm⟩

theorem Full.of_append {poly : Bool} {top seg ts : List StackType} (h : Full poly (top ++ seg) ts)
    : ∃ ts', ts = top ++ ts' ∧ Full poly seg ts' := by
  obtain ⟨r, hr, rfl⟩ := h
  exact ⟨seg ++ r, append_assoc .., r, hr, rfl⟩

variable {env : ModuleEnvironment}

theorem Fits.sub (h : Fits env poly seg ts) (hle : List.Forall₂ (StackType.Le env) ts ts') : Fits env poly seg ts' := by
  induction h generalizing ts' with
  | base hts =>
    refine .base fun hpoly => ?_
    rw [hts hpoly] at hle
    exact forall₂_nil_left_iff.mp hle
  | cons hst _ ih =>
    cases hle with
    | cons ht hle => exact .cons (hst.trans ht) (ih hle)

theorem Fits.append_top {top rest a : List StackType}
    (h : List.Forall₂ (StackType.Le env) top a) (hrest : Fits env poly rest ts)
    : Fits env poly (top ++ rest) (a ++ ts) := by
  induction h with
  | nil => exact hrest
  | cons hle _ ih => exact .cons hle ih

theorem Fits.length_le (h : Fits env poly seg ts) : seg.length ≤ ts.length := by
  induction h with
  | base => exact Nat.zero_le _
  | cons _ _ ih => exact Nat.succ_le_succ ih

namespace OpIter

variable {env : ModuleEnvironment} {block : Control} {low seg : List StackType}

section Pop

variable {s t : StackType} {ts stack : List StackType} {e : ValType} {es : List ValType}

theorem length_append_eq_iff (hbase : block.valueStackBase = low.length)
    : (seg ++ low).length = block.valueStackBase ↔ seg = [] := by
  rw [hbase, length_append]
  constructor
  . intro h
    exact length_eq_zero_iff.mp (by omega)
  . rintro rfl
    exact Nat.zero_add _

theorem popStackType_fits (hbase : block.valueStackBase = low.length) (h : Fits env block.polymorphicBase seg (t :: ts))
    : ∃ s seg', popStackType block (seg ++ low) = .ok (s, seg' ++ low) ∧ StackType.Le env s t
      ∧ Fits env block.polymorphicBase seg' ts := by
  unfold popStackType
  cases h with
  | base hts =>
    have hpoly : block.polymorphicBase = true := by
      cases hpoly : block.polymorphicBase with
      | true => rfl
      | false =>
        have := hts hpoly
        contradiction
    rw [if_pos ((length_append_eq_iff hbase).mpr rfl), if_pos hpoly]
    refine ⟨.tvar, [], rfl, .tvar t, .base fun hfalse => ?_⟩
    rw [hpoly] at hfalse
    contradiction
  | cons hst hfits =>
    rw [if_neg (fun h => cons_ne_nil _ _ ((length_append_eq_iff hbase).mp h))]
    exact ⟨_, _, rfl, hst, hfits⟩

theorem popStackType_full (hbase : block.valueStackBase = low.length)
    (h : popStackType block (seg ++ low) = .ok (s, stack))
    : ∃ seg', stack = seg' ++ low
      ∧ ∀ ts, Full block.polymorphicBase seg' ts → Full block.polymorphicBase seg (s :: ts) := by
  unfold popStackType at h
  split at h
  next hnil =>
    have := (length_append_eq_iff hbase).mp hnil
    subst this
    split at h
    next hpoly =>
      cases h
      refine ⟨[], rfl, ?_⟩
      intro ts _
      refine ⟨.tvar :: ts, fun hfalse => ?_, rfl⟩
      rw [hpoly] at hfalse
      contradiction
    next =>
      unfold failEmptyStack at h
      split at h <;> contradiction
  next hne =>
    cases seg with
    | nil => exact absurd ((length_append_eq_iff hbase).mpr rfl) hne
    | cons s' seg =>
      cases h
      exact ⟨seg, rfl, fun ts hts => hts.cons s⟩

theorem checkIsSubtypeOf_eq_ok
    : checkIsSubtypeOf env a b = .ok () ↔ isSubtypeOf env a b = true := by
  unfold checkIsSubtypeOf
  split
  next h => exact ⟨fun _ => h, fun _ => rfl⟩
  next h => exact ⟨nofun, fun h' => absurd h' h⟩

theorem popWithType_fits (hbase : block.valueStackBase = low.length)
    (h : Fits env block.polymorphicBase seg (t :: ts)) (hle : StackType.Le env t (.val e))
    : ∃ seg', popWithType env block e (seg ++ low) = .ok (seg' ++ low) ∧ Fits env block.polymorphicBase seg' ts := by
  obtain ⟨s, seg', hpop, hst, hfits⟩ := popStackType_fits hbase h
  refine ⟨seg', ?_, hfits⟩
  unfold popWithType
  rw [bind_eq_ok]
  refine ⟨_, hpop, ?_⟩
  cases hst.trans hle with
  | tvar => rfl
  | val hsub =>
    simp only []
    rw [bind_eq_ok]
    exact ⟨(), checkIsSubtypeOf_eq_ok.mpr hsub, rfl⟩

theorem popWithType_full (hbase : block.valueStackBase = low.length)
    (h : popWithType env block e (seg ++ low) = .ok stack)
    : ∃ s seg', stack = seg' ++ low ∧ StackType.Le env s (.val e)
      ∧ ∀ ts, Full block.polymorphicBase seg' ts → Full block.polymorphicBase seg (s :: ts) := by
  unfold popWithType at h
  rw [bind_eq_ok] at h
  obtain ⟨⟨s, rest⟩, hpop, h⟩ := h
  obtain ⟨seg', hrest, hfull⟩ := popStackType_full hbase hpop
  cases s with
  | tvar =>
    cases h
    exact ⟨.tvar, seg', hrest, .tvar _, hfull⟩
  | val a =>
    simp only [] at h
    rw [bind_eq_ok] at h
    obtain ⟨⟨⟩, hcheck, h⟩ := h
    cases h
    exact ⟨.val a, seg', hrest, .val (checkIsSubtypeOf_eq_ok.mp hcheck), hfull⟩

theorem popEach_fits (hbase : block.valueStackBase = low.length)
    (h : Fits env block.polymorphicBase seg (es.map .val ++ ts))
    : ∃ seg', popEach env block es (seg ++ low) = .ok (seg' ++ low) ∧ Fits env block.polymorphicBase seg' ts := by
  induction es generalizing seg with
  | nil => exact ⟨seg, rfl, h⟩
  | cons e es ih =>
    obtain ⟨seg', hpop, hfits⟩ := popWithType_fits hbase h (.refl env _)
    obtain ⟨seg'', heach, hfits'⟩ := ih hfits
    refine ⟨seg'', ?_, hfits'⟩
    unfold popEach
    rw [bind_eq_ok]
    exact ⟨_, hpop, heach⟩

theorem popEach_full (hbase : block.valueStackBase = low.length) (h : popEach env block es (seg ++ low) = .ok stack)
    : ∃ top seg', stack = seg' ++ low ∧ List.Forall₂ (StackType.Le env) top (es.map .val)
      ∧ ∀ ts, Full block.polymorphicBase seg' ts → Full block.polymorphicBase seg (top ++ ts) := by
  induction es generalizing seg with
  | nil =>
    cases h
    exact ⟨[], seg, rfl, .nil, fun _ h => h⟩
  | cons e es ih =>
    unfold popEach at h
    rw [bind_eq_ok] at h
    obtain ⟨rest, hpop, h⟩ := h
    obtain ⟨s, seg', rfl, hle, hfull⟩ := popWithType_full hbase hpop
    obtain ⟨top, seg'', hstack, hles, hfull'⟩ := ih h
    exact ⟨s :: top, seg'', hstack, .cons hle hles, fun ts hts => hfull _ (hfull' ts hts)⟩

end Pop

section PopThenPush

variable {whole ts stack : List StackType} {es : List ValType}

-- An operand has a smaller type than the one that is expected, and not just another name for it.
def MeetsStrict (env : ModuleEnvironment) (block : Control) (expected : List ValType)
    (stack : List StackType) : Prop :=
  ∃ x ∈ (stack.take (stack.length - block.valueStackBase)).zip expected.reverse, ∃ t, x.1 = .val t
    ∧ isSubtypeOf env t x.2 = true ∧ isSubtypeOf env x.2 t = false

theorem popThenPushEach_fits {types : List ValType} (hbase : block.valueStackBase = low.length)
    (h : Fits env block.polymorphicBase seg (types.map .val ++ ts))
    (hle : List.Forall₂ (isSubtypeOf env · · = true) types es)
    : ∃ (known : List ValType) (rest : List StackType),
      popThenPushEach env block whole es (seg ++ low) = .ok (known.map .val ++ (rest ++ low))
      ∧ Fits env block.polymorphicBase rest ts
      ∧ ∀ label, List.Forall₂ (isSubtypeOf env · · = true) types label
        → (block.polymorphicBase = true ∨ .tvar ∈ seg → List.Forall₂ (isSubtypeOf env · · = true) es label)
        → List.Forall₂ (isSubtypeOf env · · = true) known label := by
  induction hle generalizing seg with
  | nil => exact ⟨[], seg, rfl, h, fun label hlabel _ => hlabel⟩
  | @cons t e types es hte hle ih =>
    unfold popThenPushEach
    rw [map_cons, cons_append] at h
    cases h with
    | base hts =>
      have hpoly : block.polymorphicBase = true := by
        cases hpoly : block.polymorphicBase with
        | true => rfl
        | false =>
          have := hts hpoly
          contradiction
      rw [if_pos ((length_append_eq_iff hbase).mpr rfl), hpoly]
      obtain ⟨known, rest, heach, hfits, hknown⟩ := @ih [] (.base fun hfalse => by
        rw [hpoly] at hfalse
        contradiction)
      refine ⟨e :: known, rest, ?_, hpoly ▸ hfits, ?_⟩
      . simp only [Bool.not_true, Bool.false_eq_true, if_false]
        rw [bind_eq_ok]
        exact ⟨_, heach, rfl⟩
      intro label hlabel hes
      cases hlabel with
      | cons _ hlabel =>
        cases hes (.inl rfl) with
        | cons he hes => exact .cons he (hknown _ hlabel fun _ => hes)
    | @cons s _ seg _ hst hfits =>
      rw [if_neg (fun h => cons_ne_nil _ _ ((length_append_eq_iff hbase).mp h))]
      obtain ⟨known, rest, heach, hfits', hknown⟩ := ih hfits
      cases hst with
      | tvar =>
        refine ⟨e :: known, rest, ?_, hfits', ?_⟩
        . simp only [cons_append]
          rw [bind_eq_ok]
          exact ⟨_, heach, rfl⟩
        intro label hlabel hes
        cases hlabel with
        | cons _ hlabel =>
          cases hes (.inr mem_cons_self) with
          | cons he hes => exact .cons he (hknown _ hlabel fun _ => hes)
      | @val a _ hsub =>
        refine ⟨a :: known, rest, ?_, hfits', ?_⟩
        . simp only [cons_append]
          rw [bind_eq_ok]
          refine ⟨(), checkIsSubtypeOf_eq_ok.mpr (isSubtypeOf_trans hsub hte), ?_⟩
          rw [bind_eq_ok]
          exact ⟨_, heach, rfl⟩
        intro label hlabel hes
        cases hlabel with
        | cons ht hlabel =>
          refine .cons (isSubtypeOf_trans hsub ht) (hknown _ hlabel fun hor => ?_)
          have hes := hes (hor.imp_right (mem_cons_of_mem _))
          cases hes with
          | cons _ hes => exact hes

def Loose (env : ModuleEnvironment) (seg : List StackType) (es : List ValType) : Prop :=
  ∀ x ∈ seg.zip es, ∀ t, x.1 = .val t → isSubtypeOf env t x.2 = true → isSubtypeOf env x.2 t = true

theorem popThenPushEach_full (hbase : block.valueStackBase = low.length)
    (h : popThenPushEach env block whole es (seg ++ low) = .ok stack)
    : ∃ (types : List ValType) (rest : List StackType), stack = types.map .val ++ (rest ++ low)
      ∧ List.Forall₂ (StackType.Le env) (types.map .val) (es.map .val)
      ∧ (Loose env seg es → List.Forall₂ (StackType.Le env) (es.map .val) (types.map .val))
      ∧ ∀ ts, Full block.polymorphicBase rest ts → ∃ top', Full block.polymorphicBase seg (top' ++ ts)
        ∧ List.Forall₂ (StackType.Le env) top' (types.map .val) := by
  induction es generalizing seg stack with
  | nil =>
    cases h
    exact ⟨[], seg, rfl, .nil, fun _ => .nil, fun ts hts => ⟨[], hts, .nil⟩⟩
  | cons e es ih =>
    unfold popThenPushEach at h
    split at h
    next hnil =>
      have := (length_append_eq_iff hbase).mp hnil
      subst this
      cases hpoly : block.polymorphicBase with
      | false =>
        rw [hpoly] at h
        simp only [Bool.not_false, if_true] at h
        unfold failEmptyStack at h
        split at h <;> contradiction
      | true =>
        rw [hpoly] at h
        simp only [Bool.not_true, Bool.false_eq_true, if_false] at h
        rw [bind_eq_ok] at h
        obtain ⟨stack', heach, h⟩ := h
        cases h
        obtain ⟨types, rest, rfl, hles, hloose, hfull⟩ := ih heach
        refine ⟨e :: types, rest, rfl, .cons (.refl env _) hles, fun _ => .cons (.refl env _) (hloose nofun),
          fun ts hts => ?_⟩
        obtain ⟨top', hfull', hles'⟩ := hfull ts (hpoly ▸ hts)
        exact ⟨.tvar :: top', ⟨.tvar :: (top' ++ ts), nofun, rfl⟩, .cons (.tvar _) hles'⟩
    next hne =>
      cases seg with
      | nil => exact absurd ((length_append_eq_iff hbase).mpr rfl) hne
      | cons s seg =>
        cases s with
        | tvar =>
          simp only [cons_append] at h
          rw [bind_eq_ok] at h
          obtain ⟨stack', heach, h⟩ := h
          cases h
          obtain ⟨types, rest, rfl, hles, hloose, hfull⟩ := ih heach
          refine ⟨e :: types, rest, rfl, .cons (.refl env _) hles, fun hl => .cons (.refl env _) (hloose ?_),
            fun ts hts => ?_⟩
          . exact fun x hx => hl x (mem_cons_of_mem _ hx)
          . obtain ⟨top', hfull', hles'⟩ := hfull ts hts
            exact ⟨.tvar :: top', hfull'.cons _, .cons (.tvar _) hles'⟩
        | val a =>
          simp only [cons_append] at h
          rw [bind_eq_ok] at h
          obtain ⟨⟨⟩, hcheck, h⟩ := h
          rw [bind_eq_ok] at h
          obtain ⟨stack', heach, h⟩ := h
          cases h
          have hsub := checkIsSubtypeOf_eq_ok.mp hcheck
          obtain ⟨types, rest, rfl, hles, hloose, hfull⟩ := ih heach
          refine ⟨a :: types, rest, rfl, .cons (.val hsub) hles, fun hl => .cons (.val ?_) (hloose ?_),
            fun ts hts => ?_⟩
          . exact hl (.val a, e) mem_cons_self a rfl hsub
          . exact fun x hx => hl x (mem_cons_of_mem _ hx)
          . obtain ⟨top', hfull', hles'⟩ := hfull ts hts
            exact ⟨.val a :: top', hfull'.cons _, .cons (.refl env _) hles'⟩

theorem popThenPushEach_length (hbase : block.valueStackBase = low.length)
    (h : popThenPushEach env block whole es (seg ++ low) = .ok stack)
    : stack.length = es.length + (seg.length - es.length) + low.length := by
  induction es generalizing seg stack with
  | nil =>
    cases h
    rw [length_append, length_nil, Nat.zero_add, Nat.sub_zero]
  | cons e es ih =>
    unfold popThenPushEach at h
    split at h
    next hnil =>
      have := (length_append_eq_iff hbase).mp hnil
      subst this
      split at h
      next =>
        unfold failEmptyStack at h
        split at h <;> contradiction
      next =>
        rw [bind_eq_ok] at h
        obtain ⟨stack', heach, h⟩ := h
        cases h
        have := ih heach
        simp only [length_cons, length_nil] at this ⊢
        omega
    next hne =>
      cases seg with
      | nil => exact absurd ((length_append_eq_iff hbase).mpr rfl) hne
      | cons s seg =>
        cases s with
        | tvar =>
          simp only [cons_append] at h
          rw [bind_eq_ok] at h
          obtain ⟨stack', heach, h⟩ := h
          cases h
          have := ih heach
          simp only [length_cons] at this ⊢
          omega
        | val a =>
          simp only [cons_append] at h
          rw [bind_eq_ok] at h
          obtain ⟨⟨⟩, -, h⟩ := h
          rw [bind_eq_ok] at h
          obtain ⟨stack', heach, h⟩ := h
          cases h
          have := ih heach
          simp only [length_cons] at this ⊢
          omega

theorem popThenPushEach_known {types : List ValType} {rest : List StackType}
    (hbase : block.valueStackBase ≤ rest.length) (hlen : types.length = es.length)
    : popThenPushEach env block whole es (types.map .val ++ rest) = .ok stack
      ↔ stack = types.map .val ++ rest ∧ List.Forall₂ (isSubtypeOf env · · = true) types es := by
  induction es generalizing types stack with
  | nil =>
    obtain rfl := length_eq_zero_iff.mp hlen
    constructor
    . intro h
      cases h
      exact ⟨rfl, .nil⟩
    . rintro ⟨rfl, -⟩
      rfl
  | cons e es ih =>
    cases types with
    | nil => contradiction
    | cons t types =>
      have hne : ((t :: types).map StackType.val ++ rest).length ≠ block.valueStackBase := by
        simp only [length_append, length_map, length_cons]
        omega
      have hih (stack : List StackType) := @ih stack types (Nat.succ.inj hlen)
      unfold popThenPushEach
      rw [if_neg hne, map_cons, cons_append]
      simp only []
      rw [bind_eq_ok]
      constructor
      . rintro ⟨⟨⟩, hcheck, h⟩
        rw [bind_eq_ok] at h
        obtain ⟨stack', heach, h⟩ := h
        cases h
        obtain ⟨rfl, htypes⟩ := (hih stack').mp heach
        exact ⟨rfl, .cons (checkIsSubtypeOf_eq_ok.mp hcheck) htypes⟩
      rintro ⟨rfl, h⟩
      cases h with
      | cons hsub htypes =>
        refine ⟨(), checkIsSubtypeOf_eq_ok.mpr hsub, ?_⟩
        rw [bind_eq_ok]
        exact ⟨_, (hih _).mpr ⟨rfl, htypes⟩, rfl⟩

theorem map_val_reverse (types : List ValType) : types.reverse.map .val = stackOf types := map_reverse

theorem take_seg (hbase : block.valueStackBase = low.length)
    : (seg ++ low).take ((seg ++ low).length - block.valueStackBase) = seg := by
  rw [hbase, length_append, Nat.add_sub_cancel, take_left']
  rfl

theorem loose_of_not_meetsStrict (hbase : block.valueStackBase = low.length)
    (h : ¬MeetsStrict env block expected (seg ++ low)) : Loose env seg expected.reverse := by
  intro x hx t ht hle
  by_contra hno
  rw [Bool.not_eq_true] at hno
  exact h ⟨x, by rw [take_seg hbase]; exact hx, t, ht, hle, hno⟩

theorem popThenPushType_below {types expected : List ValType} (hbase : block.valueStackBase = low.length)
    (h : Fits env block.polymorphicBase seg (stackOf types ++ ts))
    (hle : List.Forall₂ (isSubtypeOf env · · = true) types expected)
    : ∃ known rest, popThenPushType env block expected (seg ++ low) = .ok (stackOf known ++ (rest ++ low))
      ∧ Fits env block.polymorphicBase rest ts
      ∧ ∀ label, List.Forall₂ (isSubtypeOf env · · = true) types label → (block.polymorphicBase = true ∨ .tvar ∈ seg
          → List.Forall₂ (isSubtypeOf env · · = true) expected label)
        → List.Forall₂ (isSubtypeOf env · · = true) known label := by
  rw [← map_val_reverse] at h
  obtain ⟨known, rest, heach, hfits, hknown⟩ := popThenPushEach_fits hbase h (forall₂_reverse_iff.mpr hle)
  rw [← reverse_reverse known, map_val_reverse] at heach
  refine ⟨known.reverse, rest, heach, hfits, fun label hlabel hexpected => ?_⟩
  rw [← reverse_reverse label, forall₂_reverse_iff]
  exact hknown _ (forall₂_reverse_iff.mpr hlabel) fun hor => forall₂_reverse_iff.mpr (hexpected hor)

theorem popThenPushType_fits (hbase : block.valueStackBase = low.length)
    (h : Fits env block.polymorphicBase seg (stackOf expected ++ ts))
    : ∃ known rest, popThenPushType env block expected (seg ++ low) = .ok (stackOf known ++ (rest ++ low))
      ∧ List.Forall₂ (isSubtypeOf env · · = true) known expected ∧ Fits env block.polymorphicBase rest ts := by
  have hrefl : List.Forall₂ (isSubtypeOf env · · = true) expected expected :=
    forall₂_same.mpr fun t _ => isSubtypeOf_refl env t
  obtain ⟨known, rest, hpop, hfits, hknown⟩ := popThenPushType_below hbase h hrefl
  exact ⟨known, rest, hpop, hknown expected hrefl fun _ => hrefl, hfits⟩

theorem popThenPushType_full (hbase : block.valueStackBase = low.length)
    (h : popThenPushType env block expected (seg ++ low) = .ok stack)
    : ∃ types rest, stack = stackOf types ++ (rest ++ low)
      ∧ List.Forall₂ (StackType.Le env) (stackOf types) (stackOf expected)
      ∧ (¬MeetsStrict env block expected (seg ++ low)
        → List.Forall₂ (StackType.Le env) (stackOf expected) (stackOf types))
      ∧ ∀ ts, Full block.polymorphicBase rest ts → ∃ top', Full block.polymorphicBase seg (top' ++ ts)
        ∧ List.Forall₂ (StackType.Le env) top' (stackOf types) := by
  obtain ⟨types, rest, hstack, hles, hloose, hfull⟩ := popThenPushEach_full hbase h
  rw [map_val_reverse] at hles hloose
  rw [← reverse_reverse types, map_val_reverse] at hstack hles hloose hfull
  exact ⟨types.reverse, rest, hstack, hles, fun hstrict => hloose (loose_of_not_meetsStrict hbase hstrict), hfull⟩

theorem stackOf_length (types : List ValType) : (stackOf types).length = types.length := by
  unfold stackOf
  rw [length_reverse, length_map]

theorem checkStackAtEndOfBlock_full (hvalue : it.valueStack = seg ++ low)
    (hbase : block.valueStackBase = low.length) (h : checkStackAtEndOfBlock env it block = .ok stack)
    : ∃ types, stack = stackOf types ++ low
      ∧ List.Forall₂ (StackType.Le env) (stackOf types) (stackOf block.type.results)
      ∧ (¬MeetsStrict env block block.type.results it.valueStack
        → List.Forall₂ (StackType.Le env) (stackOf block.type.results) (stackOf types))
      ∧ ∃ ts, Full block.polymorphicBase seg ts ∧ List.Forall₂ (StackType.Le env) ts (stackOf types) := by
  unfold checkStackAtEndOfBlock at h
  rw [hvalue] at h ⊢
  split at h
  next => contradiction
  next hlen =>
    obtain ⟨types, rest, rfl, hle, hge, hfull⟩ := popThenPushType_full hbase h
    have hlength := popThenPushEach_length hbase h
    have htop := hle.length_eq
    have hrest : rest = [] := by
      rw [stackOf_length block.type.results] at htop
      rw [length_append, length_append, length_reverse] at hlength
      rw [hbase, length_append] at hlen
      exact length_eq_zero_iff.mp (by omega)
    subst hrest
    obtain ⟨top', hfull', hle'⟩ := hfull [] ⟨[], fun _ => rfl, rfl⟩
    rw [append_nil] at hfull'
    exact ⟨types, rfl, hle, hge, top', hfull', hle'⟩

end PopThenPush

end OpIter

end SpiderMonkey.Wasm
