import SpiderMonkey.Jit.Lemmas.LinearSum

/-!
This module contains the verification of the linear sums and inequalities over whole expressions.
-/

namespace SpiderMonkey

theorem NegateCompareOp_holds (jsop : JSOp) (l r : Int32) : (NegateCompareOp jsop).holds l r = !jsop.holds l r := by
  cases jsop <;> simp only [NegateCompareOp, JSOp.holds, ← decide_not, gt_iff_lt, ge_iff_le, Int32.not_lt, Int32.not_le,
    ne_eq, Decidable.not_not]

-- The space that a call with the space `space` extracts the sum in.
def extractedSpace (ins : MDefinition) (space : MathSpace) : MathSpace :=
  if space = .unknown then ins.space else space

theorem extractedSpace_ne_unknown (ins : MDefinition) (space : MathSpace) : extractedSpace ins space ≠ .unknown := by
  unfold extractedSpace
  split
  next => exact ins.space_ne_unknown
  next h => exact h

theorem ExtractLinearSum_eq (ins : MDefinition) (space : MathSpace)
    : ExtractLinearSum ins space = extractLinearSumAux ins (extractedSpace ins space) false := by
  unfold ExtractLinearSum extractedSpace
  split
  next h => rw [h, extractLinearSumAux_unknown]
  next => rfl

section Inside

variable {env : Nat → Int32} {ins : MDefinition}

-- The value of `ins` is inside int32, and so are those it is computed from, when the one of the sum is.
def InsideWhenSumIs (sum : SimpleLinearSum) (ins : MDefinition) (env : Nat → Int32) : Prop :=
  ∀ t w : Int32, sum.termEval env = some t → w.toInt = t.toInt + sum.constant.toInt → ins.eval env = some w

theorem InsideWhenSumIs.self (ins : MDefinition) (env : Nat → Int32) : InsideWhenSumIs ⟨some ins, 0⟩ ins env := by
  intro t w ht hw
  have : w = t := by
    rw [← Int32.toInt_inj, hw]
    exact Int.add_zero _
  rw [this]
  exact ht

-- A sum without a term is always inside.
theorem InsideWhenSumIs.of_none (h : InsideWhenSumIs sum ins env) (hterm : sum.term = none)
    : ins.eval env = some sum.constant := by
  apply h 0 sum.constant
  . simp only [SimpleLinearSum.termEval, hterm]
  . exact (Int.zero_add _).symm

theorem exists_between {a b : Int} {t w : Int32} (hab : 0 ≤ a ∧ 0 ≤ b ∨ a ≤ 0 ∧ b ≤ 0)
    (hw : w.toInt = t.toInt + (a + b)) : ∃ u : Int32, u.toInt = t.toInt + a := by
  have := t.le_toInt
  have := t.toInt_lt
  have := w.le_toInt
  have := w.toInt_lt
  exact ⟨Int32.ofInt (t.toInt + a), Int32.toInt_ofInt_of_le (by omega) (by omega)⟩

theorem addConstants_monotone (h : addConstants .infinite a b = some c)
    : 0 ≤ a.toInt ∧ 0 ≤ b.toInt ∨ a.toInt ≤ 0 ∧ b.toInt ≤ 0 := by
  simp only [addConstants] at h
  split at h
  next hmono => simpa [MonotoneAdd, Int32.le_iff_toInt_le] using hmono
  next => contradiction

theorem subConstants_monotone (h : subConstants .infinite a b = some c)
    : 0 ≤ a.toInt ∧ 0 ≤ -b.toInt ∨ a.toInt ≤ 0 ∧ -b.toInt ≤ 0 := by
  simp only [subConstants] at h
  split at h
  next hmono => simpa [MonotoneSub, Int32.le_iff_toInt_le] using hmono
  next => contradiction

variable {lhs rhs : MDefinition} {lsum rsum : SimpleLinearSum}

theorem addSums_inside (hl : InsideWhenSumIs lsum lhs env) (hr : InsideWhenSumIs rsum rhs env)
    (hins : ∀ l r v, lhs.eval env = some l → rhs.eval env = some r → v.toInt = l.toInt + r.toInt → ins.eval env = some v)
    : InsideWhenSumIs (addSums ins .infinite lsum rsum) ins env := by
  unfold addSums
  split
  next => exact .self ins env
  next hboth =>
    split
    next constant hconstant =>
      have hmono := addConstants_monotone hconstant
      have hsum := (addConstants_exact hconstant).2 rfl
      intro t w ht hw
      dsimp only at hw
      rw [hsum] at hw
      cases hlt : lsum.term with
      | none =>
        have htr : rsum.termEval env = some t := (SimpleLinearSum.termEval_congr (by rw [hlt]; rfl)).trans ht
        rw [Int.add_comm lsum.constant.toInt] at hw
        obtain ⟨r, hr'⟩ := exists_between (by omega) hw
        refine hins lsum.constant r w (hl.of_none hlt) (hr t r htr hr') ?_
        omega
      | some term =>
        have htl : lsum.termEval env = some t := (SimpleLinearSum.termEval_congr (by rw [hlt]; rfl)).trans ht
        have hrt : rsum.term = none := by
          simpa [hlt] using hboth
        obtain ⟨l, hl'⟩ := exists_between hmono hw
        refine hins l _ w (hl t l htl hl') (hr.of_none hrt) ?_
        omega
    next => exact .self ins env

theorem subSums_inside (hl : InsideWhenSumIs lsum lhs env) (hr : InsideWhenSumIs rsum rhs env)
    (hins : ∀ l r v, lhs.eval env = some l → rhs.eval env = some r → v.toInt = l.toInt - r.toInt → ins.eval env = some v)
    : InsideWhenSumIs (subSums ins .infinite lsum rsum) ins env := by
  unfold subSums
  split
  next => exact .self ins env
  next hboth =>
    split
    next hsome =>
      have hrt : rsum.term = none := by
        simpa [hsome] using hboth
      split
      next constant hconstant =>
        intro t w ht hw
        dsimp only at hw
        rw [(subConstants_exact hconstant).2 rfl, Int.sub_eq_add_neg] at hw
        obtain ⟨l, hl'⟩ := exists_between (subConstants_monotone hconstant) hw
        refine hins l _ w (hl t l ht hl') (hr.of_none hrt) ?_
        omega
      next => exact .self ins env
    next => exact .self ins env

theorem extractLinearSumAux_inside (ins : MDefinition) (stripped : Bool)
    : InsideWhenSumIs (extractLinearSumAux ins .infinite stripped) ins env := by
  induction ins generalizing stripped with
  | beta id operand ih =>
    unfold extractLinearSumAux
    split
    next => exact .self _ env
    next => exact ih true
  | constant id value =>
    intro t w ht hw
    cases ht
    have : w = value := by
      rw [← Int32.toInt_inj, hw]
      exact Int.zero_add _
    rw [this]
    rfl
  | leaf id type => exact .self _ env
  | add id type kind lhs rhs ihl ihr | sub id type kind lhs rhs ihl ihr =>
    unfold extractLinearSumAux
    split
    next hcond =>
      obtain ⟨htype, hsame, hlt, hrt⟩ := hcond
      have hkind := SimpleLinearSum.eq_extractMathSpace_of_sameSpace hsame (fun h => by cases h)
      rw [hkind]
      first
      | apply addSums_inside (ihl false) (ihr false)
      | apply subSums_inside (ihl false) (ihr false)
      intro l r v hl hr hv
      simp only [MDefinition.eval, htype, hlt, hrt, and_self, if_true, hl, hr, some_bind, addValue, subValue, hkind,
        SafeAdd_eq_some, SafeSub_eq_some, hv]
    next => exact .self _ env

end Inside

section Inequality

variable {env : Nat → Int32} {compare : MCompare} {direction : BranchDirection} {i : LinearInequality} {l r : Int32}

theorem branch_holds (h : compare.jsop.holds l r = decide (direction = .TRUE_BRANCH))
    : (if direction = .FALSE_BRANCH then NegateCompareOp compare.jsop else compare.jsop).holds l r = true := by
  cases direction with
  | FALSE_BRANCH => rw [if_pos rfl, NegateCompareOp_holds, h, decide_eq_false nofun, Bool.not_false]
  | TRUE_BRANCH => rw [if_neg nofun, h, decide_eq_true rfl]

theorem ExtractLinearInequality_holds (hl : compare.lhs.eval env = some l) (hr : compare.rhs.eval env = some r)
    (hls : compare.lhs.space = .infinite) (hrs : compare.rhs.space = .infinite)
    (hextract : ExtractLinearInequality (some compare) direction = some i)
    (hbranch : compare.jsop.holds l r = decide (direction = .TRUE_BRANCH))
    : ∃ tl tr, i.lhs.termEval env = some tl ∧ SimpleLinearSum.termEval ⟨i.rhs, 0⟩ env = some tr ∧ i.Holds tl tr := by
  obtain ⟨tl, hlsum⟩ := ExtractLinearSum_denotes hl
  obtain ⟨tr, hrsum⟩ := ExtractLinearSum_denotes hr
  have hlv := hlsum.exact hls
  have hrv := hrsum.exact hrs
  have hone : (1 : Int32).toInt = 1 := rfl
  have hholds := branch_holds hbranch
  unfold ExtractLinearInequality at hextract
  rw [some_bind] at hextract
  dsimp only at hextract
  split at hextract
  next =>
    obtain ⟨constant, hsub, hextract⟩ := bind_eq_some.mp hextract
    have hc := SafeSub_eq_some.mp hsub
    have hholds' : ∀ i', i' = i → i'.lhs.term = (ExtractLinearSum compare.lhs .unknown).term
        → i'.rhs = (ExtractLinearSum compare.rhs .unknown).term → i'.Holds tl tr
        → ∃ tl tr, i.lhs.termEval env = some tl ∧ SimpleLinearSum.termEval ⟨i.rhs, 0⟩ env = some tr ∧ i.Holds tl tr := by
      rintro i' rfl hlt hrt hi
      exact ⟨tl, tr, (SimpleLinearSum.termEval_congr hlt).trans hlsum.term,
        (SimpleLinearSum.termEval_congr hrt).trans hrsum.term, hi⟩
    split at hextract
    next hop =>
      rw [hop, JSOp.holds, decide_eq_true_eq, Int32.le_iff_toInt_le] at hholds
      refine hholds' _ (Option.some_inj.mp hextract) rfl rfl ?_
      show tl.toInt + constant.toInt ≤ tr.toInt
      omega
    next hop =>
      obtain ⟨constant', hadd, hextract⟩ := bind_eq_some.mp hextract
      have hc' := SafeAdd_eq_some.mp hadd
      rw [hop, JSOp.holds, decide_eq_true_eq, Int32.lt_iff_toInt_lt] at hholds
      refine hholds' _ (Option.some_inj.mp hextract) rfl rfl ?_
      show tl.toInt + constant'.toInt ≤ tr.toInt
      omega
    next hop =>
      rw [hop, JSOp.holds, decide_eq_true_eq, ge_iff_le, Int32.le_iff_toInt_le] at hholds
      refine hholds' _ (Option.some_inj.mp hextract) rfl rfl ?_
      show tl.toInt + constant.toInt ≥ tr.toInt
      omega
    next hop =>
      obtain ⟨constant', hadd, hextract⟩ := bind_eq_some.mp hextract
      have hc' := SafeSub_eq_some.mp hadd
      rw [hop, JSOp.holds, decide_eq_true_eq, gt_iff_lt, Int32.lt_iff_toInt_lt] at hholds
      refine hholds' _ (Option.some_inj.mp hextract) rfl rfl ?_
      show tl.toInt + constant'.toInt ≥ tr.toInt
      omega
    next => contradiction
  next => contradiction

end Inequality

-- The sums hold for every evaluation that does not bail out.
theorem linearSums_faithful
    : (∀ (ins : MDefinition) (space : MathSpace) (env : Nat → Int32), (∀ v, ins.eval env = some v
          → ∃ t, (ExtractLinearSum ins space).termEval env = some t
            ∧ (extractedSpace ins space = .infinite → v.toInt = t.toInt + (ExtractLinearSum ins space).constant.toInt)
            ∧ (extractedSpace ins space = .modulo → v = t + (ExtractLinearSum ins space).constant))
        ∧ (extractedSpace ins space = .infinite → InsideWhenSumIs (ExtractLinearSum ins space) ins env))
      ∧ ∀ (compare : MCompare) (direction : BranchDirection) (env : Nat → Int32) (l r : Int32) (i : LinearInequality),
        compare.lhs.eval env = some l → compare.rhs.eval env = some r
        → compare.lhs.space = .infinite → compare.rhs.space = .infinite
        → ExtractLinearInequality (some compare) direction = some i
        → compare.jsop.holds l r = decide (direction = .TRUE_BRANCH)
        → ∃ tl tr, i.lhs.termEval env = some tl ∧ SimpleLinearSum.termEval ⟨i.rhs, 0⟩ env = some tr
          ∧ i.Holds tl tr := by
  constructor
  . intro ins space env
    rw [ExtractLinearSum_eq]
    constructor
    . intro v hv
      obtain ⟨t, ht⟩ := extractLinearSumAux_denotes _ false (extractedSpace_ne_unknown ins space) hv
      exact ⟨t, ht.term, ht.exact, fun _ => ht.wrap⟩
    intro hspace
    rw [hspace]
    exact extractLinearSumAux_inside ins false
  . intro compare direction env l r i hl hr hls hrs hextract hbranch
    exact ExtractLinearInequality_holds hl hr hls hrs hextract hbranch

-- The sum of `x + 5`, and the true branch of `x < y + 1`.
theorem linearSums_faithful_less
    : InsideWhenSumIs ⟨some (.leaf 0 .int32), 5⟩ (.add 2 .int32 .noTruncate (.leaf 0 .int32) (.constant 3 5)) Int32.ofNat
      ∧ LinearInequality.Holds ⟨⟨some (.leaf 0 .int32), 0⟩, some (.leaf 1 .int32), true⟩ 0 1 := by
  constructor
  . exact (linearSums_faithful.1 (.add 2 .int32 .noTruncate (.leaf 0 .int32) (.constant 3 5)) .unknown _).2 rfl
  obtain ⟨_, _, hl, hr, h⟩ := linearSums_faithful.2
    ⟨true, .Lt, .leaf 0 .int32, .add 2 .int32 .noTruncate (.leaf 1 .int32) (.constant 3 1)⟩
    .TRUE_BRANCH Int32.ofNat 0 2 _ rfl rfl rfl rfl rfl rfl
  cases hl
  cases hr
  exact h

end SpiderMonkey
