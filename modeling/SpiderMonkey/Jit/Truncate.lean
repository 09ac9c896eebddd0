import SpiderMonkey.Jit.Lemmas.Truncate

/-!
This module contains the verification of range-based truncation: truncated arithmetic is that of doubles where the
ranges that are read for the operands are right.
-/

namespace SpiderMonkey.ArithGraph

open IntegralDouble

variable {options : TruncateOptions} {graph nodes : ArithGraph} {ranges : List (Option Range)}
  {kinds : List TruncateKind} {leaves : Nat → Int32} {values : List Int32} {doubles : List IntegralDouble}
  {exact : List Int} {node : ArithNode} {v : Int32} {z : Int} {i j k : Nat}

def LeavesInRange (graph : ArithGraph) (leaves : Nat → Int32) : Prop :=
  ∀ j (range : Range), graph[j]? = some (ArithNode.leaf (some range)) → range.Contains (leaves j).toInt

def TruncatedAt (kinds : List TruncateKind) (k : Nat) : Prop := ∃ kind, kinds[k]? = some kind ∧ IsTruncated kind

-- What `computeRange` reads for an operand is right about its exact value.
def ReadsRightly (ranges : List (Option Range)) (exact : List Int) (k : Nat) : Prop :=
  ∀ (range : Option Range) (z : Int), ranges[k]? = some range → exact[k]? = some z → (Range.ofInt32Definition range).Contains z

-- A truncated definition does not round, or its truncated operands have the values that their ranges let expect.
def Harmless (graph : ArithGraph) (ranges : List (Option Range)) (kinds : List TruncateKind) (exact : List Int) : Prop :=
  ∀ (j : Nat) op lhs rhs uses z, graph[j]? = some (ArithNode.arith op lhs rhs uses) → exact[j]? = some z
    → TruncatedAt kinds j
    → (∀ k, lhs = k ∨ rhs = k → TruncatedAt kinds k → ReadsRightly ranges exact k) ∨ IntegralDouble.round z = finite z

structure AgreesAt (ranges : List (Option Range)) (kinds : List TruncateKind) (doubles : List IntegralDouble)
    (exact : List Int) (i : Nat) (v : Int32) (z : Int) : Prop where
  exact_eq : exact[i]? = some z
  double_eq : doubles[i]? = some (finite z)
  value_eq : v = Int32.ofInt z
  toInt_eq : ¬TruncatedAt kinds i → v.toInt = z
  reads : ¬TruncatedAt kinds i → ReadsRightly ranges exact i

section Step

theorem eq_ofInt_of_toInt (h : v.toInt = z) : v = Int32.ofInt z := by
  rw [← h, Int32.ofInt_toInt]

theorem range_of_leaf {range : Option Range} (hranges : ArithGraph.ranges graph = some ranges)
    (hnode : graph[j]? = some (.leaf range)) : ranges[j]? = some range := by
  obtain ⟨r, hr, heval⟩ := evalWith_getElem? hranges hnode
  rwa [Option.some.inj heval]

theorem range_of_arith {op : ArithOp} {lhs rhs : Nat} {uses : CandidateUses}
    (hranges : ArithGraph.ranges graph = some ranges) (hnode : graph[j]? = some (.arith op lhs rhs uses))
    : ∃ left right, ranges[lhs]? = some left ∧ ranges[rhs]? = some right
      ∧ ranges[j]? = some (some (op.computeRange (.ofInt32Definition left) (.ofInt32Definition right))) := by
  obtain ⟨r, hr, heval⟩ := evalWith_getElem? hranges hnode
  simp only [computeRange, bind_eq_some] at heval
  obtain ⟨left, hleft, right, hright, heval⟩ := heval
  rw [List.getElem?_take, Option.ite_none_right_eq_some] at hleft hright
  refine ⟨left, right, hleft.2, hright.2, ?_⟩
  rwa [Option.some.inj heval]

theorem int32_le (v : Int32) : JSVAL_INT_MIN ≤ v.toInt ∧ v.toInt ≤ JSVAL_INT_MAX := by
  have hmin := v.le_toInt
  have hmax := v.toInt_lt
  rw [JSVAL_INT_MIN, JSVAL_INT_MAX]
  constructor <;> omega

theorem round_of_exponent {r : Range} (hr : r.Contains z) (he : r.maxExponent < Range.MaxTruncatableExponent)
    : IntegralDouble.round z = finite z := by
  rw [Range.MaxTruncatableExponent] at he
  have hlt := hr.lt_exponent (Nat.le_trans (Nat.le_of_lt he) (by decide))
  have hpow : 2 ^ (r.maxExponent + 1) ≤ 2 ^ 53 := Nat.pow_le_pow_right (by decide) (by omega)
  exact round_of_le (Nat.le_of_lt (Nat.lt_of_lt_of_le hlt hpow))

theorem step_leaf {range : Option Range} (hranges : ArithGraph.ranges graph = some ranges)
    (hleaves : LeavesInRange graph leaves) (hnode : graph[j]? = some (.leaf range))
    : ∀ r, ranges[j]? = some r → (Range.ofInt32Definition r).Contains (leaves j).toInt := by
  intro r hr
  rw [range_of_leaf hranges hnode] at hr
  cases hr
  apply Range.ofInt32Definition_contains (int32_le _).1 (int32_le _).2
  rintro r rfl
  exact hleaves j r hnode

-- The operands of a definition that is not truncated are not truncated either, so that it computes the exact value.
theorem step_safe {op : ArithOp} {lhs rhs : Nat} {uses : CandidateUses} {left right : Int32} {zl zr : Int}
    (hranges : ArithGraph.ranges graph = some ranges) (hnode : graph[j]? = some (.arith op lhs rhs uses))
    (hnot : ¬TruncatedAt (truncateFrom options 0 graph ranges) j) (hlhs : lhs < j) (hrhs : rhs < j)
    (hleft : AgreesAt ranges (truncateFrom options 0 graph ranges) doubles exact lhs left zl)
    (hright : AgreesAt ranges (truncateFrom options 0 graph ranges) doubles exact rhs right zr)
    (hsafe : op.safe left right = some v)
    : v.toInt = op.int zl zr
      ∧ ∀ r, ranges[j]? = some r → (Range.ofInt32Definition r).Contains (op.int zl zr) := by
  have hoperand : ∀ k, lhs = k ∨ rhs = k → k < j → ¬TruncatedAt (truncateFrom options 0 graph ranges) k := by
    rintro k hreads hlt ⟨kind, hkind, htruncated⟩
    have hlength := (List.getElem?_eq_some_iff.mp hnode).1
    obtain ⟨kind', hkind', hle⟩ := rank_operand_le hnode hreads hlt (List.getElem?_eq_getElem (Nat.lt_trans hlt hlength))
      (truncateFrom_getElem? hnode)
    rw [hkind] at hkind'
    cases hkind'
    rw [isTruncated_iff] at htruncated
    exact hnot ⟨_, truncateFrom_getElem? hnode, isTruncated_iff.mpr (Nat.le_trans htruncated hle)⟩
  have hnotLeft := hoperand lhs (.inl rfl) hlhs
  have hnotRight := hoperand rhs (.inr rfl) hrhs
  have hv : v.toInt = op.int zl zr := by
    rw [ArithOp.toInt_of_safe hsafe, hleft.toInt_eq hnotLeft, hright.toInt_eq hnotRight]
  refine ⟨hv, fun r hr => ?_⟩
  obtain ⟨rl, rr, hrl, hrr, hrange⟩ := range_of_arith hranges hnode
  rw [hrange] at hr
  cases hr
  rw [← hv]
  apply Range.ofInt32Definition_contains (int32_le v).1 (int32_le v).2
  rintro r ⟨⟩
  rw [hv]
  exact ArithOp.computeRange_contains (hleft.reads hnotLeft _ _ hrl hleft.exact_eq)
    (hright.reads hnotRight _ _ hrr hright.exact_eq)

-- The guard of truncation bounds the exact value, as long as the ranges of the operands are right.
theorem step_truncated {op : ArithOp} {lhs rhs : Nat} {uses : CandidateUses} {left right : Int32} {zl zr : Int}
    (hranges : ArithGraph.ranges graph = some ranges) (hnode : graph[j]? = some (.arith op lhs rhs uses))
    (htruncated : TruncatedAt (truncateFrom options 0 graph ranges) j)
    (hleft : AgreesAt ranges (truncateFrom options 0 graph ranges) doubles exact lhs left zl)
    (hright : AgreesAt ranges (truncateFrom options 0 graph ranges) doubles exact rhs right zr)
    (hreads : ∀ k, lhs = k ∨ rhs = k → TruncatedAt (truncateFrom options 0 graph ranges) k → ReadsRightly ranges exact k)
    : IntegralDouble.round (op.int zl zr) = finite (op.int zl zr) := by
  obtain ⟨kind, hkind, htruncated⟩ := htruncated
  rw [truncateFrom_getElem? hnode] at hkind
  cases hkind
  obtain ⟨rl, rr, hrl, hrr, hrange⟩ := range_of_arith hranges hnode
  obtain ⟨r, hr, hexponent⟩ := exponent_of_isTruncated htruncated
  rw [hrange] at hr
  cases hr
  have hcontainsLeft : ReadsRightly ranges exact lhs := by
    by_cases hk : TruncatedAt (truncateFrom options 0 graph ranges) lhs
    . exact hreads lhs (.inl rfl) hk
    . exact hleft.reads hk
  have hcontainsRight : ReadsRightly ranges exact rhs := by
    by_cases hk : TruncatedAt (truncateFrom options 0 graph ranges) rhs
    . exact hreads rhs (.inr rfl) hk
    . exact hright.reads hk
  exact round_of_exponent (ArithOp.computeRange_contains (hcontainsLeft _ _ hrl hleft.exact_eq)
    (hcontainsRight _ _ hrr hright.exact_eq)) hexponent

end Step

section Run

theorem AgreesAt.concat (h : AgreesAt ranges kinds doubles exact i v z) (d : IntegralDouble) (e : Int)
    : AgreesAt ranges kinds (doubles ++ [d]) (exact ++ [e]) i v z := by
  have hexact := (List.getElem?_eq_some_iff.mp h.exact_eq).1
  have hdouble := (List.getElem?_eq_some_iff.mp h.double_eq).1
  refine ⟨?_, ?_, h.value_eq, h.toInt_eq, fun hnot range z' hrange hz' => ?_⟩
  . rw [List.getElem?_append_left hexact, h.exact_eq]
  . rw [List.getElem?_append_left hdouble, h.double_eq]
  . rw [List.getElem?_append_left hexact] at hz'
    exact h.reads hnot range z' hrange hz'

theorem Harmless.of_concat {e : Int} (h : Harmless graph ranges kinds (exact ++ [e])) : Harmless graph ranges kinds exact := by
  have hextends : ∀ (k : Nat) (z : Int), exact[k]? = some z → (exact ++ [e])[k]? = some z := by
    intro k z hz
    rwa [List.getElem?_append_left (List.getElem?_eq_some_iff.mp hz).1]
  intro j op lhs rhs uses z hnode hz htruncated
  refine (h j op lhs rhs uses z hnode (hextends j z hz) htruncated).imp_left fun hreads k hk htruncated => ?_
  exact fun range z hrange hz => hreads k hk htruncated range z hrange (hextends k z hz)

theorem agrees_of_run (hranges : ArithGraph.ranges graph = some ranges) (hleaves : LeavesInRange graph leaves)
    (hpre : nodes <+: graph)
    (h : evalWith (truncatedValue (truncateFrom options 0 graph ranges) leaves) [] nodes = some values)
    (hexact : evalWith (exactValue leaves) [] nodes = some exact)
    (hharmless : Harmless graph ranges (truncateFrom options 0 graph ranges) exact)
    : ∃ doubles, evalWith (doubleValue leaves) [] nodes = some doubles
      ∧ ∀ i v, values[i]? = some v → ∃ z, AgreesAt ranges (truncateFrom options 0 graph ranges) doubles exact i v z := by
  induction nodes using List.reverseRecOn generalizing values exact with
  | nil =>
    cases h
    exact ⟨[], rfl, fun i v hv => by cases hv⟩
  | append_singleton nodes node ih =>
    obtain ⟨values, v, hvalues, hv, rfl⟩ := (evalWith_concat_eq_some []).mp h
    obtain ⟨exact, z, hexacts, hz, rfl⟩ := (evalWith_concat_eq_some []).mp hexact
    obtain ⟨doubles, hdoubles, hagrees⟩ := ih ((List.prefix_append _ _).trans hpre) hvalues hexacts hharmless.of_concat
    have hlengthValues := evalWith_length hvalues
    have hlengthExact := evalWith_length hexacts
    have hlengthDoubles := evalWith_length hdoubles
    have hnode : graph[nodes.length]? = some node := by
      obtain ⟨more, hmore⟩ := hpre
      rw [← hmore, List.append_assoc, List.getElem?_append_right (Nat.le_refl _), Nat.sub_self]
      rfl
    rw [hlengthValues] at hv
    rw [hlengthExact] at hz
    -- What is left to show is about the last definition.
    suffices hlast : doubleValue leaves doubles doubles.length node = some (finite z) ∧ v = Int32.ofInt z
        ∧ (¬TruncatedAt (truncateFrom options 0 graph ranges) nodes.length → v.toInt = z
          ∧ ∀ r, ranges[nodes.length]? = some r → (Range.ofInt32Definition r).Contains z) by
      obtain ⟨hdouble, hvalue, hsafe⟩ := hlast
      refine ⟨doubles ++ [finite z], (evalWith_concat_eq_some []).mpr ⟨doubles, _, hdoubles, hdouble, rfl⟩, ?_⟩
      intro i w hw
      rcases Lists.getElem?_concat_cases hw with ⟨-, hw⟩ | ⟨hi, rfl⟩
      . obtain ⟨z', hz'⟩ := hagrees i w hw
        exact ⟨z', hz'.concat _ _⟩
      . have hi : i = nodes.length := hi.trans hlengthValues
        subst hi
        have hlast : (exact ++ [z])[nodes.length]? = some z := by
          rw [← hlengthExact, List.getElem?_concat_length]
        refine ⟨z, hlast, ?_, hvalue, fun hnot => (hsafe hnot).1, fun hnot range z' hrange hz' => ?_⟩
        . rw [← hlengthDoubles, List.getElem?_concat_length]
        . rw [hlast] at hz'
          cases hz'
          exact (hsafe hnot).2 range hrange
    rw [hlengthDoubles]
    cases node with
    | leaf range =>
      cases hv
      cases hz
      exact ⟨rfl, eq_ofInt_of_toInt rfl, fun _ => ⟨rfl, step_leaf hranges hleaves hnode⟩⟩
    | arith op lhs rhs uses =>
      simp only [truncatedValue, bind_eq_some] at hv
      obtain ⟨left, hleft, right, hright, hv⟩ := hv
      obtain ⟨zl, hzl⟩ := hagrees lhs left hleft
      obtain ⟨zr, hzr⟩ := hagrees rhs right hright
      have hlhs : lhs < nodes.length := hlengthValues ▸ (List.getElem?_eq_some_iff.mp hleft).1
      have hrhs : rhs < nodes.length := hlengthValues ▸ (List.getElem?_eq_some_iff.mp hright).1
      simp only [exactValue, hzl.exact_eq, hzr.exact_eq, some_bind] at hz
      cases hz
      have hdouble : doubleValue leaves doubles nodes.length (.arith op lhs rhs uses)
          = some (IntegralDouble.round (op.int zl zr)) := by
        simp only [doubleValue, hzl.double_eq, hzr.double_eq, some_bind, ArithOp.double_eq_round]
      rw [hdouble]
      by_cases htruncated : TruncatedAt (truncateFrom options 0 graph ranges) nodes.length
      . have hwrapping : v = Int32.ofInt (op.int zl zr) := by
          rw [← ArithOp.wrapping_ofInt, ← hzl.value_eq, ← hzr.value_eq]
          obtain ⟨kind, hkind, hkinds⟩ := htruncated
          rw [hkind] at hv
          rcases hkinds with rfl | rfl <;> exact (Option.some.inj hv).symm
        have hlast : (exact ++ [op.int zl zr])[nodes.length]? = some (op.int zl zr) := by
          rw [← hlengthExact, List.getElem?_concat_length]
        refine ⟨?_, hwrapping, fun hnot => absurd htruncated hnot⟩
        rcases hharmless _ _ _ _ _ _ hnode hlast htruncated with hreads | hround
        . rw [step_truncated hranges hnode htruncated (hzl.concat (finite zl) _) (hzr.concat (finite zl) _) hreads]
        . rw [hround]
      . have hsafe : op.safe left right = some v := by
          split at hv
          next hkind => exact absurd ⟨_, hkind, .inl rfl⟩ htruncated
          next hkind => exact absurd ⟨_, hkind, .inr rfl⟩ htruncated
          next => exact hv
        obtain ⟨htoInt, hcontains⟩ := step_safe hranges hnode htruncated hlhs hrhs hzl hzr hsafe
        have hsmall := int32_le v
        rw [htoInt, JSVAL_INT_MIN, JSVAL_INT_MAX] at hsmall
        rw [round_of_le (by omega)]
        exact ⟨rfl, eq_ofInt_of_toInt htoInt, fun _ => ⟨htoInt, hcontains⟩⟩

end Run

theorem truncated_eq_toInt32 (hranges : ArithGraph.ranges graph = some ranges) (hleaves : LeavesInRange graph leaves)
    {n : Nat} (h : truncatedValues options graph leaves n = some values)
    (hexact : exactValues (graph.take n) leaves = some exact)
    (hharmless : Harmless graph ranges (truncateFrom options 0 graph ranges) exact)
    : ∃ doubles, doubleValues (graph.take n) leaves = some doubles
      ∧ ∀ (i : Nat) v, values[i]? = some v → ∃ d : IntegralDouble, doubles[i]? = some d ∧ v = d.toInt32 := by
  unfold truncatedValues truncateKinds at h
  rw [hranges, Option.map_some, some_bind] at h
  obtain ⟨doubles, hdoubles, hagrees⟩ := agrees_of_run hranges hleaves (List.take_prefix n graph) h hexact hharmless
  refine ⟨doubles, hdoubles, fun i v hv => ?_⟩
  obtain ⟨z, hz⟩ := hagrees i v hv
  exact ⟨finite z, hz.double_eq, hz.value_eq⟩

def plainUses : CandidateUses := ⟨false, false, true, false, false, true⟩

def tripleSquare : ArithGraph :=
  [ .leaf (some (Range.setInt32 0 (2 ^ 26 - 1))), .arith .mul 0 0 plainUses,
    .arith .add 1 1 plainUses, .arith .add 2 1 plainUses ]

theorem truncated_eq_toInt32_tripleSquare
    : ∃ doubles, doubleValues (tripleSquare.take 4) (fun _ => 3) = some doubles
      ∧ ∀ (i : Nat) v, ([3, 9, 18, 27] : List Int32)[i]? = some v → ∃ d : IntegralDouble, doubles[i]? = some d ∧ v = d.toInt32 := by
  obtain ⟨ranges, hranges⟩ : ∃ ranges, ArithGraph.ranges tripleSquare = some ranges := ⟨_, rfl⟩
  have hleaves : LeavesInRange tripleSquare fun _ => 3 := by
    intro j range hj
    have hmem := List.mem_of_getElem? hj
    simp only [tripleSquare, List.mem_cons, ArithNode.leaf.injEq, Option.some.injEq, reduceCtorEq, or_false,
      List.not_mem_nil] at hmem
    rw [hmem]
    have hthree : 0 ≤ (3 : Int32).toInt ∧ (3 : Int32).toInt ≤ 2 ^ 26 - 1 := by decide
    exact Range.setInt32_contains hthree.1 hthree.2
  apply truncated_eq_toInt32 (n := 4) hranges hleaves
    (show truncatedValues ⟨false, false⟩ tripleSquare (fun _ => 3) 4 = some [3, 9, 18, 27] by decide)
    (show exactValues (tripleSquare.take 4) (fun _ => 3) = some [3, 9, 18, 27] by decide)
  intro j op lhs rhs uses z _ hz _
  have hmem := List.mem_of_getElem? hz
  have hsmall : ∀ z ∈ ([3, 9, 18, 27] : List Int), z.natAbs ≤ 2 ^ 53 := by decide
  exact .inr (round_of_le (hsmall z hmem))

-- The exact value is odd and has 54 bits. The range of the first sum is that of any `Int32`, as if
-- the sum had not been truncated, so that the second sum seems to be too small for rounding.
theorem tripleSquare_rounds
    : ∃ values doubles v d, truncatedValues ⟨false, false⟩ tripleSquare (fun _ => 2 ^ 26 - 1) 4 = some values
        ∧ values[3]? = some v ∧ doubleValues tripleSquare (fun _ => 2 ^ 26 - 1) = some doubles
        ∧ doubles[3]? = some d ∧ v ≠ d.toInt32 :=
  ⟨[67108863, -134217727, -268435454, -402653181],
    [.finite 67108863, .finite 4503599493152769, .finite 9007198986305538,
      .finite 13510798479458308], -402653181, .finite 13510798479458308,
    by decide +kernel, rfl, by decide +kernel, rfl, by decide⟩

end SpiderMonkey.ArithGraph
