import Mathlib.Data.List.Forall2
import SpiderMonkey.Jit.BitwiseRange
import SpiderMonkey.Jit.Lemmas.LinearSum
import SpiderMonkey.Lib.Lists

/-!
This module contains that the ranges of sums, differences and products include them, and which kinds of truncation the
definitions of a graph get.
-/

namespace SpiderMonkey

namespace Range

section Operations

variable {l h a b z : Int} {r lhs rhs : Range}

theorem setUpperInit_contains (hlower : r.hasInt32LowerBound → r.lower ≤ z) (hh : h ≤ JSVAL_INT_MAX → z ≤ h)
    (he : r.maxExponent ≤ MaxFiniteExponent → z.natAbs < 2 ^ (r.maxExponent + 1)) : (r.setUpperInit h).Contains z := by
  rw [JSVAL_INT_MAX] at hh
  unfold setUpperInit
  split_ifs with hgreat hless
  . exact ⟨hlower, fun hbound => absurd hbound Bool.false_ne_true, he⟩
  . refine ⟨hlower, fun _ => ?_, he⟩
    rw [JSVAL_INT_MAX] at hgreat
    change z ≤ JSVAL_INT_MIN
    omega
  . refine ⟨hlower, fun _ => ?_, he⟩
    rw [JSVAL_INT_MAX] at hgreat
    change z ≤ h
    omega

theorem optimizeBounds_contains (hr : r.Contains z) : r.optimizeBounds.Contains z := by
  unfold optimizeBounds
  split
  next hbounds =>
    unfold hasInt32Bounds at hbounds
    rw [Bool.and_eq_true] at hbounds
    have hlower := hr.lower_le hbounds.1
    have hupper := hr.le_upper hbounds.2
    refine ⟨hr.lower_le, hr.le_upper, fun he => ?_⟩
    dsimp only at he ⊢
    rcases Nat.le_total r.exponentImpliedByInt32Bounds r.maxExponent with hle | hle
    . rw [Nat.min_eq_left hle]
      have hmax : z.natAbs ≤ max r.lower.natAbs r.upper.natAbs := by omega
      exact natAbs_lt_of_log2_le (log2_mono hmax)
    . rw [Nat.min_eq_right hle] at he ⊢
      exact hr.lt_exponent he
  next => exact hr

theorem optimize_contains (hr : r.Contains z) : r.optimize.Contains z := by
  have hbounds := optimizeBounds_contains hr
  unfold optimize
  dsimp only
  split
  . exact ⟨hbounds.lower_le, hbounds.le_upper, hbounds.lt_exponent⟩
  . exact hbounds

theorem set_contains {fractional negativeZero : Bool} {e : Nat} (hl : JSVAL_INT_MIN ≤ l → l ≤ z)
    (hh : h ≤ JSVAL_INT_MAX → z ≤ h) (he : e ≤ MaxFiniteExponent → z.natAbs < 2 ^ (e + 1))
    : (set l h fractional negativeZero e).Contains z := by
  rw [JSVAL_INT_MIN] at hl
  unfold set
  apply optimize_contains
  unfold setLowerInit
  split_ifs with hgreat hless
  . refine setUpperInit_contains (fun _ => ?_) hh he
    rw [JSVAL_INT_MAX] at hgreat
    change JSVAL_INT_MAX ≤ z
    rw [JSVAL_INT_MAX]
    omega
  . exact setUpperInit_contains (fun hbound => absurd hbound Bool.false_ne_true) hh he
  . refine setUpperInit_contains (fun _ => ?_) hh he
    rw [JSVAL_INT_MIN] at hless
    change l ≤ z
    omega

theorem setInt32_contains (hl : l ≤ z) (hh : z ≤ h) : (setInt32 l h).Contains z := by
  refine ⟨fun _ => hl, fun _ => hh, fun _ => ?_⟩
  have hmax : z.natAbs ≤ max l.natAbs h.natAbs := by omega
  exact natAbs_lt_of_log2_le (log2_mono hmax)

theorem wrapAroundToInt32_contains (hmin : JSVAL_INT_MIN ≤ z) (hmax : z ≤ JSVAL_INT_MAX) (hr : r.Contains z)
    : r.wrapAroundToInt32.Contains z := by
  unfold wrapAroundToInt32
  split_ifs with hbounds hfractional
  . exact setInt32_contains hmin hmax
  . rw [Bool.not_eq_true', Bool.not_eq_false, hasInt32Bounds, Bool.and_eq_true] at hbounds
    have hlower := hr.lower_le hbounds.1
    have hupper := hr.le_upper hbounds.2
    unfold refineInt32BoundsByExponent
    split
    next hsmall =>
      have hlt := hr.lt_exponent (Nat.le_of_lt (Nat.lt_trans hsmall (by decide)))
      have hcast : ((2 ^ (r.maxExponent + 1) : Nat) : Int) = 2 ^ (r.maxExponent + 1) := by norm_cast
      refine ⟨fun _ => ?_, fun _ => ?_, fun _ => hlt⟩ <;> dsimp only <;> omega
    next => exact ⟨fun _ => hlower, fun _ => hupper, hr.lt_exponent⟩
  . exact ⟨hr.lower_le, hr.le_upper, hr.lt_exponent⟩

theorem ofInt32Definition_contains {range : Option Range} (hmin : JSVAL_INT_MIN ≤ z) (hmax : z ≤ JSVAL_INT_MAX)
    (hr : ∀ r ∈ range, r.Contains z) : (ofInt32Definition range).Contains z := by
  cases range with
  | none => exact setInt32_contains hmin hmax
  | some r => exact wrapAroundToInt32_contains hmin hmax (hr r rfl)

theorem natAbs_lt_of_exponents {d : Int} (ha : lhs.Contains a) (hb : rhs.Contains b) (hd : d.natAbs ≤ a.natAbs + b.natAbs)
    (he : addExponent lhs rhs ≤ MaxFiniteExponent) : d.natAbs < 2 ^ (addExponent lhs rhs + 1) := by
  unfold addExponent at he ⊢
  dsimp only at he ⊢
  split_ifs at he ⊢ with hinfinite hfinite
  . exact absurd he (by decide)
  . have hlhs := ha.lt_exponent (Nat.le_trans (Nat.le_max_left _ _) hfinite)
    have hrhs := hb.lt_exponent (Nat.le_trans (Nat.le_max_right _ _) hfinite)
    have hleft : 2 ^ (lhs.maxExponent + 1) ≤ 2 ^ (max lhs.maxExponent rhs.maxExponent + 1) :=
      Nat.pow_le_pow_right (by decide) (by omega)
    have hright : 2 ^ (rhs.maxExponent + 1) ≤ 2 ^ (max lhs.maxExponent rhs.maxExponent + 1) :=
      Nat.pow_le_pow_right (by decide) (by omega)
    rw [Nat.pow_succ]
    omega
  . exact absurd he hfinite

theorem add_contains (ha : lhs.Contains a) (hb : rhs.Contains b) : (add lhs rhs).Contains (a + b) := by
  unfold add
  apply set_contains
  . split
    next => exact fun hmin => absurd hmin (by decide)
    next hbounds =>
      rw [Bool.or_eq_true, not_or, Bool.not_eq_true', Bool.not_eq_true', Bool.not_eq_false, Bool.not_eq_false] at hbounds
      exact fun _ => Int.add_le_add (ha.lower_le hbounds.1) (hb.lower_le hbounds.2)
  . split
    next => exact fun hmax => absurd hmax (by decide)
    next hbounds =>
      rw [Bool.or_eq_true, not_or, Bool.not_eq_true', Bool.not_eq_true', Bool.not_eq_false, Bool.not_eq_false] at hbounds
      exact fun _ => Int.add_le_add (ha.le_upper hbounds.1) (hb.le_upper hbounds.2)
  . exact natAbs_lt_of_exponents ha hb (Int.natAbs_add_le a b)

theorem sub_contains (ha : lhs.Contains a) (hb : rhs.Contains b) : (sub lhs rhs).Contains (a - b) := by
  unfold sub
  apply set_contains
  . split
    next => exact fun hmin => absurd hmin (by decide)
    next hbounds =>
      rw [Bool.or_eq_true, not_or, Bool.not_eq_true', Bool.not_eq_true', Bool.not_eq_false, Bool.not_eq_false] at hbounds
      exact fun _ => Int.sub_le_sub (ha.lower_le hbounds.1) (hb.le_upper hbounds.2)
  . split
    next => exact fun hmax => absurd hmax (by decide)
    next hbounds =>
      rw [Bool.or_eq_true, not_or, Bool.not_eq_true', Bool.not_eq_true', Bool.not_eq_false, Bool.not_eq_false] at hbounds
      exact fun _ => Int.sub_le_sub (ha.le_upper hbounds.1) (hb.lower_le hbounds.2)
  . exact natAbs_lt_of_exponents ha hb (by omega)

theorem mul_between (hl : l ≤ b) (hh : b ≤ h) : min (a * l) (a * h) ≤ a * b ∧ a * b ≤ max (a * l) (a * h) := by
  rcases Int.le_total 0 a with ha | ha
  . have hlower := Int.mul_le_mul_of_nonneg_left hl ha
    have hupper := Int.mul_le_mul_of_nonneg_left hh ha
    omega
  . have hlower := Int.mul_le_mul_of_nonpos_left ha hl
    have hupper := Int.mul_le_mul_of_nonpos_left ha hh
    omega

theorem mul_contains (ha : lhs.Contains a) (hb : rhs.Contains b) : (mul lhs rhs).Contains (a * b) := by
  have hexponent : mulExponent lhs rhs ≤ MaxFiniteExponent → (a * b).natAbs < 2 ^ (mulExponent lhs rhs + 1) := by
    intro he
    unfold mulExponent at he ⊢
    dsimp only at he ⊢
    split_ifs at he ⊢ with hinfinite hlarge hnan
    . exact absurd he (by decide)
    . rw [Bool.and_eq_true, Bool.not_eq_true', Bool.not_eq_true', canBeInfiniteOrNaN, canBeInfiniteOrNaN,
        decide_eq_false_iff_not, decide_eq_false_iff_not, IncludesInfinity, Nat.not_le, Nat.not_le] at hinfinite
      have hlhs := ha.lt_exponent (Nat.le_of_lt_succ hinfinite.1)
      have hrhs := hb.lt_exponent (Nat.le_of_lt_succ hinfinite.2)
      have hbits : lhs.numBits + rhs.numBits - 1 + 1 = (lhs.maxExponent + 1) + (rhs.maxExponent + 1) := by
        unfold numBits
        omega
      rw [hbits, Nat.pow_add, Int.natAbs_mul]
      exact Nat.mul_lt_mul'' hlhs hrhs
    . exact absurd he (by decide)
    . exact absurd he (by decide)
  unfold mul
  dsimp only
  split
  next => exact set_contains (fun hmin => absurd hmin (by decide)) (fun hmax => absurd hmax (by decide)) hexponent
  next hbounds =>
    rw [Bool.or_eq_true, not_or, Bool.not_eq_true', Bool.not_eq_true', Bool.not_eq_false, Bool.not_eq_false,
      hasInt32Bounds, hasInt32Bounds, Bool.and_eq_true, Bool.and_eq_true] at hbounds
    obtain ⟨hleft, hright⟩ := hbounds
    have hproduct := mul_between (hb.lower_le hright.1) (hb.le_upper hright.2) (a := a)
    have hlower := mul_between (ha.lower_le hleft.1) (ha.le_upper hleft.2) (a := rhs.lower)
    have hupper := mul_between (ha.lower_le hleft.1) (ha.le_upper hleft.2) (a := rhs.upper)
    rw [Int.mul_comm rhs.lower, Int.mul_comm rhs.lower, Int.mul_comm rhs.lower] at hlower
    rw [Int.mul_comm rhs.upper, Int.mul_comm rhs.upper, Int.mul_comm rhs.upper] at hupper
    apply set_contains _ _ hexponent
    . intro _
      omega
    . intro _
      omega

end Operations

end Range

namespace ArithOp

variable {op : ArithOp} {a b : Int}

theorem computeRange_contains {lhs rhs : Range} (ha : lhs.Contains a) (hb : rhs.Contains b)
    : (op.computeRange lhs rhs).Contains (op.int a b) := by
  cases op with
  | add => exact Range.add_contains ha hb
  | sub => exact Range.sub_contains ha hb
  | mul => exact Range.mul_contains ha hb

theorem wrapping_ofInt (op : ArithOp) (a b : Int)
    : op.wrapping (Int32.ofInt a) (Int32.ofInt b) = Int32.ofInt (op.int a b) := by
  cases op with
  | add => exact (Int32.ofInt_add a b).symm
  | sub => exact (Int32.ofInt_sub a b).symm
  | mul => exact (Int32.ofInt_mul a b).symm

theorem toInt_of_safe {a b c : Int32} (h : op.safe a b = some c) : c.toInt = op.int a.toInt b.toInt := by
  cases op with
  | add => exact SafeAdd_eq_some.mp h
  | sub => exact SafeSub_eq_some.mp h
  | mul => exact (safe_eq_some (Int32.toInt_mul a b)).mp h

theorem double_eq_round (op : ArithOp) (a b : Int)
    : op.double (.finite a) (.finite b) = IntegralDouble.round (op.int a b) := by
  cases op <;> rfl

end ArithOp

namespace ArithGraph

section EvalWith

variable {β : Type} {f : List β → Nat → ArithNode → Option β} {graph : ArithGraph} {node : ArithNode} {bs : List β}

theorem evalWith_concat_eq_some (done : List β)
    : evalWith f done (graph ++ [node]) = some bs
      ↔ ∃ bs' b, evalWith f done graph = some bs' ∧ f bs' bs'.length node = some b ∧ bs = bs' ++ [b] := by
  induction graph generalizing done with
  | nil =>
    simp only [List.nil_append, evalWith, bind_eq_some, Option.some.injEq]
    constructor
    . rintro ⟨b, hb, rfl⟩
      exact ⟨done, b, rfl, hb, rfl⟩
    . rintro ⟨_, b, rfl, hb, rfl⟩
      exact ⟨b, hb, rfl⟩
  | cons first rest ih =>
    simp only [List.cons_append, evalWith, bind_eq_some, ih]
    constructor
    . rintro ⟨c, hc, bs', b, hrest, hb, rfl⟩
      exact ⟨bs', b, ⟨c, hc, hrest⟩, hb, rfl⟩
    . rintro ⟨bs', b, ⟨c, hc, hrest⟩, hb, rfl⟩
      exact ⟨c, hc, bs', b, hrest, hb, rfl⟩

theorem evalWith_length (h : evalWith f [] graph = some bs) : bs.length = graph.length := by
  induction graph using List.reverseRecOn generalizing bs with
  | nil =>
    cases h
    rfl
  | append_singleton graph node ih =>
    obtain ⟨bs', b, hbs', -, rfl⟩ := (evalWith_concat_eq_some []).mp h
    rw [List.length_append, List.length_append, ih hbs', List.length_singleton, List.length_singleton]

theorem evalWith_getElem? (h : evalWith f [] graph = some bs) {j : Nat} (hnode : graph[j]? = some node)
    : ∃ b, bs[j]? = some b ∧ f (bs.take j) j node = some b := by
  induction graph using List.reverseRecOn generalizing bs with
  | nil => cases hnode
  | append_singleton graph last ih =>
    obtain ⟨bs', b, hbs', hb, rfl⟩ := (evalWith_concat_eq_some []).mp h
    have hlength := evalWith_length hbs'
    rcases Lists.getElem?_concat_cases hnode with ⟨hlt, hnode⟩ | ⟨rfl, rfl⟩
    . obtain ⟨c, hc, heval⟩ := ih hbs' hnode
      refine ⟨c, ?_, ?_⟩
      . rwa [List.getElem?_append_left (by omega)]
      . rwa [List.take_append_of_le_length (by omega)]
    . refine ⟨b, ?_, ?_⟩
      . rw [← hlength, List.getElem?_concat_length]
      . rwa [← hlength, List.take_left]

end EvalWith

section Kinds

variable {options : TruncateOptions} {i j k : Nat} {op : ArithOp} {lhs rhs : Nat} {uses : CandidateUses}
  {nodes later : List ArithNode} {kinds : List TruncateKind} {kind : TruncateKind} {node : ArithNode}

theorem rank_min_le (a b : TruncateKind) : (a.min b).rank ≤ a.rank ∧ (a.min b).rank ≤ b.rank := by
  unfold TruncateKind.min
  split
  next h => exact ⟨Nat.le_refl _, h⟩
  next h => exact ⟨Nat.le_of_not_le h, Nat.le_refl _⟩

theorem rank_consumersKind_le (hnode : later[k]? = some (.arith op lhs rhs uses)) (hreads : lhs = i ∨ rhs = i)
    (hkind : kinds[k]? = some kind) : (consumersKind i later kinds).rank ≤ kind.rank := by
  induction k generalizing later kinds with
  | zero =>
    cases later with
    | nil => cases hnode
    | cons node later =>
      cases kinds with
      | nil => cases hkind
      | cons kind kinds =>
        cases hnode
        cases hkind
        unfold consumersKind
        rw [if_pos hreads]
        exact Nat.le_trans (rank_min_le _ _).1 (rank_min_le _ _).1
  | succ k ih =>
    cases later with
    | nil => cases hnode
    | cons node later =>
      cases kinds with
      | nil => cases hkind
      | cons kind kinds =>
        have hlater := ih hnode hkind
        cases node with
        | leaf range => exact hlater
        | arith op' lhs' rhs' uses' =>
          unfold consumersKind
          split
          . exact Nat.le_trans (rank_min_le _ _).2 hlater
          . exact hlater

theorem rank_ComputeRequestedTruncateKind_le (range : Option Range) (consumers : TruncateKind)
    : (ComputeRequestedTruncateKind options range uses consumers).rank ≤ consumers.rank := by
  have hguard : (if uses.isGuard then consumers.min .truncateAfterBailouts else consumers).rank ≤ consumers.rank := by
    split
    . exact (rank_min_le _ _).1
    . exact Nat.le_refl _
  unfold ComputeRequestedTruncateKind
  dsimp only
  generalize (if uses.isGuard then consumers.min .truncateAfterBailouts else consumers) = kind at hguard ⊢
  have hbailouts := Nat.le_trans (rank_min_le kind .truncateAfterBailouts).1 hguard
  cases range <;> (dsimp only; split_ifs <;> assumption)

theorem rank_truncateNode_le (range : Option Range) (consumers : TruncateKind)
    : (truncateNode options range node consumers).rank ≤ consumers.rank := by
  cases node with
  | leaf _ => exact Nat.zero_le _
  | arith op lhs rhs uses =>
    unfold truncateNode ComputeTruncateKind
    dsimp only
    split_ifs
    . exact Nat.zero_le _
    . exact Nat.zero_le _
    . exact Nat.zero_le _
    . exact rank_ComputeRequestedTruncateKind_le range consumers

def IsTruncated (kind : TruncateKind) : Prop := kind = .indirectTruncate ∨ kind = .truncate

theorem isTruncated_iff : IsTruncated kind ↔ 2 ≤ kind.rank := by
  cases kind <;> simp [IsTruncated, TruncateKind.rank]

theorem exponent_of_isTruncated {range : Option Range} {consumers : TruncateKind}
    (h : IsTruncated (truncateNode options range (.arith op lhs rhs uses) consumers))
    : ∃ r, range = some r ∧ r.maxExponent < Range.MaxTruncatableExponent := by
  rw [isTruncated_iff] at h
  unfold truncateNode ComputeTruncateKind at h
  cases range with
  | none =>
    simp [TruncateKind.rank] at h
  | some r =>
    refine ⟨r, rfl, ?_⟩
    by_contra hlarge
    have hrounding : r.canHaveRoundingErrors = true := by
      unfold Range.canHaveRoundingErrors
      rw [decide_eq_true (Nat.not_lt.mp hlarge), Bool.or_true]
    dsimp only at h
    rw [if_pos hrounding] at h
    split at h <;> simp [TruncateKind.rank] at h

theorem truncateFrom_getElem? {ranges : List (Option Range)} (hnode : nodes[k]? = some node)
    : (truncateFrom options i nodes ranges)[k]? = some (truncateNode options ranges[k]?.join node
        (consumersKind (i + k) (nodes.drop (k + 1)) ((truncateFrom options i nodes ranges).drop (k + 1)))) := by
  induction nodes generalizing i k ranges with
  | nil => cases hnode
  | cons first later ih =>
    cases k with
    | zero =>
      cases hnode
      cases ranges <;> rfl
    | succ k =>
      have hlater : (truncateFrom options (i + 1) later ranges.tail)[k]?
          = some (truncateNode options ranges.tail[k]?.join node (consumersKind (i + 1 + k) (later.drop (k + 1))
            ((truncateFrom options (i + 1) later ranges.tail).drop (k + 1)))) := ih hnode
      rw [List.getElem?_tail, Nat.add_right_comm, Nat.add_assoc] at hlater
      exact hlater

theorem rank_operand_le {ranges : List (Option Range)} {operand : ArithNode} (hnode : nodes[j]? = some (.arith op lhs rhs uses))
    (hreads : lhs = k ∨ rhs = k) (hlt : k < j) (hoperand : nodes[k]? = some operand)
    (hkind : (truncateFrom options 0 nodes ranges)[j]? = some kind)
    : ∃ kind', (truncateFrom options 0 nodes ranges)[k]? = some kind' ∧ kind'.rank ≤ kind.rank := by
  refine ⟨_, truncateFrom_getElem? hoperand, Nat.le_trans (rank_truncateNode_le _ _) ?_⟩
  rw [Nat.zero_add]
  have hconsumer : (nodes.drop (k + 1))[j - (k + 1)]? = some (.arith op lhs rhs uses) := by
    rw [List.getElem?_drop, Nat.add_sub_cancel' hlt]
    exact hnode
  apply rank_consumersKind_le hconsumer hreads
  rw [List.getElem?_drop, Nat.add_sub_cancel' hlt]
  exact hkind

end Kinds

end ArithGraph

end SpiderMonkey
