import SpiderMonkey.Lib.OptionBind
import SpiderMonkey.Jit.Impl.LinearSum

/-!
This module contains the verification of the extraction of linear sums: the value of a definition is
the value of its term and the constant.
-/

namespace SpiderMonkey

variable {a b c : Int32}

section SafeArithmetic

variable {d : Int32} {n : Int} (hd : d.toInt = n.bmod (2 ^ 32))
include hd

theorem eq_of_toInt (hc : c.toInt = n) : c = d := by
  rw [← Int32.toInt_inj, hd, ← hc, Int.bmod_eq_of_le]
  . exact c.le_toInt
  . exact c.toInt_lt

theorem safe_eq_some : (if d.toInt = n then some d else none) = some c ↔ c.toInt = n := by
  rw [Option.ite_none_right_eq_some, Option.some_inj]
  constructor
  . rintro ⟨h, rfl⟩
    exact h
  intro hc
  have heq := eq_of_toInt hd hc
  exact ⟨heq ▸ hc, heq.symm⟩

theorem exact_of_safe {space : MathSpace} (h : (if d.toInt = n then some d else none) = some c)
    : c = d ∧ (space = .infinite → c.toInt = n) :=
  have hc := (safe_eq_some hd).mp h
  ⟨eq_of_toInt hd hc, fun _ => hc⟩

end SafeArithmetic

theorem SafeAdd_eq_some : SafeAdd a b = some c ↔ c.toInt = a.toInt + b.toInt :=
  safe_eq_some (Int32.toInt_add a b)

theorem SafeSub_eq_some : SafeSub a b = some c ↔ c.toInt = a.toInt - b.toInt :=
  safe_eq_some (Int32.toInt_sub a b)

theorem addConstants_exact {space : MathSpace} (h : addConstants space a b = some c)
    : c = a + b ∧ (space = .infinite → c.toInt = a.toInt + b.toInt) := by
  unfold addConstants at h
  split at h
  next => exact ⟨(Option.some.inj h).symm, nofun⟩
  next =>
    split at h
    next => exact exact_of_safe (Int32.toInt_add a b) h
    next => contradiction

theorem subConstants_exact {space : MathSpace} (h : subConstants space a b = some c)
    : c = a - b ∧ (space = .infinite → c.toInt = a.toInt - b.toInt) := by
  unfold subConstants at h
  split at h
  next => exact ⟨(Option.some.inj h).symm, nofun⟩
  next =>
    split at h
    next => exact exact_of_safe (Int32.toInt_sub a b) h
    next => contradiction

variable {kind : TruncateKind}

theorem addValue_exact (h : addValue kind a b = some c)
    : c = a + b ∧ (ExtractMathSpace kind = .infinite → c.toInt = a.toInt + b.toInt) := by
  unfold addValue at h
  split at h
  next hspace => exact ⟨(Option.some.inj h).symm, fun hkind => nomatch hspace.symm.trans hkind⟩
  next => exact exact_of_safe (Int32.toInt_add a b) h

theorem subValue_exact (h : subValue kind a b = some c)
    : c = a - b ∧ (ExtractMathSpace kind = .infinite → c.toInt = a.toInt - b.toInt) := by
  unfold subValue at h
  split at h
  next hspace => exact ⟨(Option.some.inj h).symm, fun hkind => nomatch hspace.symm.trans hkind⟩
  next => exact exact_of_safe (Int32.toInt_sub a b) h

variable {ins : MDefinition}

namespace SimpleLinearSum

variable {env : Nat → Int32}

-- The sum has the value `v` when its term has the value `t`: modulo `2 ^ 32` in every space, and
-- exactly in the infinite one.
structure Denotes (sum : SimpleLinearSum) (env : Nat → Int32) (space : MathSpace) (v t : Int32) :
    Prop where
  term : sum.termEval env = some t
  wrap : v = t + sum.constant
  exact : space = .infinite → v.toInt = t.toInt + sum.constant.toInt

theorem Denotes.self (h : ins.eval env = some v) (space : MathSpace)
    : Denotes ⟨some ins, 0⟩ env space v v := by
  constructor
  . exact h
  . exact (Int32.add_zero v).symm
  . intro _
    exact (Int.add_zero v.toInt).symm

theorem termEval_congr {sum₁ sum₂ : SimpleLinearSum} (h : sum₁.term = sum₂.term)
    : sum₁.termEval env = sum₂.termEval env := by
  simp only [termEval, h]

theorem termEval_none {sum : SimpleLinearSum} (hterm : sum.term = none) (h : sum.termEval env = some t)
    : t = 0 := by
  simp only [termEval, hterm, Option.some.injEq] at h
  exact h.symm

theorem Denotes.toInt_of_none {sum : SimpleLinearSum} {space : MathSpace}
    (h : sum.Denotes env space v t) (hterm : sum.term = none)
    : v = sum.constant := by
  rw [h.wrap, termEval_none hterm h.term, Int32.zero_add]

theorem addSums_denotes (hl : lsum.Denotes env (ExtractMathSpace kind) l tl)
    (hr : rsum.Denotes env (ExtractMathSpace kind) r tr) (hv : addValue kind l r = some v)
    (hins : ins.eval env = some v)
    : ∃ t, (addSums ins (ExtractMathSpace kind) lsum rsum).Denotes env (ExtractMathSpace kind) v t
    := by
  unfold addSums
  split
  next => exact ⟨v, Denotes.self hins _⟩
  next hboth =>
    split
    next constant hconstant =>
      obtain ⟨hc, hcinf⟩ := addConstants_exact hconstant
      obtain ⟨hvw, hvinf⟩ := addValue_exact hv
      match hlt : lsum.term, hrt : rsum.term with
      | none, _ =>
        have hl0 := hl.toInt_of_none hlt
        refine ⟨tr, ?_, ?_, ?_⟩
        . exact (termEval_congr (by rw [hrt]; rfl)).trans hr.term
        . dsimp only
          rw [hvw, hc, hl0, hr.wrap, ← Int32.add_assoc, Int32.add_comm lsum.constant tr, Int32.add_assoc]
        intro hspace
        have h1 := hvinf hspace
        have h2 := hr.exact hspace
        have h3 := hcinf hspace
        dsimp only
        rw [hl0] at h1
        omega
      | some x, none =>
        have hr0 := hr.toInt_of_none hrt
        refine ⟨tl, ?_, ?_, ?_⟩
        . exact (termEval_congr (by rw [hlt]; rfl)).trans hl.term
        . dsimp only
          rw [hvw, hc, hr0, hl.wrap, Int32.add_assoc]
        intro hspace
        have h1 := hvinf hspace
        have h2 := hl.exact hspace
        have h3 := hcinf hspace
        dsimp only
        rw [hr0] at h1
        omega
      | some x, some y =>
        simp only [hlt, hrt, Option.isSome_some, Bool.and_self, not_true_eq_false] at hboth
    next => exact ⟨v, Denotes.self hins _⟩

theorem subSums_denotes (hl : lsum.Denotes env (ExtractMathSpace kind) l tl)
    (hr : rsum.Denotes env (ExtractMathSpace kind) r tr) (hv : subValue kind l r = some v)
    (hins : ins.eval env = some v)
    : ∃ t, (subSums ins (ExtractMathSpace kind) lsum rsum).Denotes env (ExtractMathSpace kind) v t
    := by
  unfold subSums
  split
  next => exact ⟨v, Denotes.self hins _⟩
  next hboth =>
    split
    next hsome =>
      have hrt : rsum.term = none := by
        simpa only [hsome, Bool.true_and, Option.not_isSome_iff_eq_none] using hboth
      have hr0 := hr.toInt_of_none hrt
      split
      next constant hconstant =>
        obtain ⟨hc, hcinf⟩ := subConstants_exact hconstant
        obtain ⟨hvw, hvinf⟩ := subValue_exact hv
        refine ⟨tl, hl.term, ?_, ?_⟩
        . dsimp only
          rw [hvw, hc, hr0, hl.wrap, Int32.sub_eq_add_neg, Int32.sub_eq_add_neg, Int32.add_assoc]
        intro hspace
        have h1 := hvinf hspace
        have h2 := hl.exact hspace
        have h3 := hcinf hspace
        dsimp only
        rw [hr0] at h1
        omega
      next => exact ⟨v, Denotes.self hins _⟩
    next => exact ⟨v, Denotes.self hins _⟩

theorem eq_extractMathSpace_of_sameSpace {space insSpace : MathSpace}
    (h : sameSpace space insSpace = true) (hspace : space ≠ .unknown)
    : insSpace = space := by
  simp only [sameSpace, Bool.or_eq_true, decide_eq_true_eq] at h
  cases h with
  | inl h => contradiction
  | inr h => exact h.symm

end SimpleLinearSum

theorem extractLinearSumAux_denotes
    (space : MathSpace) (stripped : Bool) (hspace : space ≠ .unknown) (h : ins.eval env = some v)
    : ∃ t, (extractLinearSumAux ins space stripped).Denotes env space v t := by
  induction ins generalizing v stripped space with
  | beta id operand ih =>
    unfold extractLinearSumAux
    split
    next => exact ⟨v, SimpleLinearSum.Denotes.self h _⟩
    next => exact ih space true hspace h
  | constant id value =>
    cases h
    refine ⟨0, rfl, ?_, ?_⟩
    . exact (Int32.zero_add _).symm
    . intro _
      exact (Int.zero_add _).symm
  | leaf id type => exact ⟨v, SimpleLinearSum.Denotes.self h _⟩
  | add id type kind lhs rhs ihl ihr | sub id type kind lhs rhs ihl ihr =>
    unfold extractLinearSumAux
    split
    next hcond =>
      obtain ⟨htype, hsame, hlt, hrt⟩ := hcond
      have heq := SimpleLinearSum.eq_extractMathSpace_of_sameSpace hsame hspace
      have hins := h
      simp only [MDefinition.eval, htype, hlt, hrt, and_self, if_true, bind_eq_some] at h
      obtain ⟨l, hl, r, hr, hv⟩ := h
      obtain ⟨tl, hl⟩ := ihl space false hspace hl
      obtain ⟨tr, hr⟩ := ihr space false hspace hr
      subst heq
      first
      | exact SimpleLinearSum.addSums_denotes hl hr hv hins
      | exact SimpleLinearSum.subSums_denotes hl hr hv hins
    next => exact ⟨v, SimpleLinearSum.Denotes.self h _⟩

def MDefinition.space : MDefinition → MathSpace
  | beta _ operand => operand.space
  | add _ _ truncateKind .. => ExtractMathSpace truncateKind
  | sub _ _ truncateKind .. => ExtractMathSpace truncateKind
  | _ => .infinite

theorem ExtractMathSpace_ne_unknown (kind : TruncateKind) : ExtractMathSpace kind ≠ .unknown := by
  cases kind <;> exact nofun

theorem MDefinition.space_ne_unknown (ins : MDefinition) : ins.space ≠ .unknown := by
  induction ins with
  | beta id operand ih => exact ih
  | add => exact ExtractMathSpace_ne_unknown _
  | sub => exact ExtractMathSpace_ne_unknown _
  | _ => exact nofun

theorem extractLinearSumAux_unknown (ins : MDefinition) (stripped : Bool)
    : extractLinearSumAux ins .unknown stripped = extractLinearSumAux ins ins.space stripped := by
  induction ins generalizing stripped with
  | beta id operand ih => simp only [extractLinearSumAux, MDefinition.space, ih]
  | add => simp only [extractLinearSumAux, MDefinition.space, sameSpace, decide_true, Bool.true_or, Bool.or_true]
  | sub => simp only [extractLinearSumAux, MDefinition.space, sameSpace, decide_true, Bool.true_or, Bool.or_true]
  | _ => rfl

theorem ExtractLinearSum_denotes (h : ins.eval env = some v)
    : ∃ t, (ExtractLinearSum ins .unknown).Denotes env ins.space v t := by
  unfold ExtractLinearSum
  rw [extractLinearSumAux_unknown]
  exact extractLinearSumAux_denotes ins.space false ins.space_ne_unknown h

end SpiderMonkey
