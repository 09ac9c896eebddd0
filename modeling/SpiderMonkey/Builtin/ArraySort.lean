import SpiderMonkey.Builtin.Lemmas.ArraySort

/-!
This module contains that the native sort of arrays leaves what the specification's sort does, unless there is but one
value to sort and it cannot be converted.
-/

namespace SpiderMonkey.ArraySort

open IntegralDouble
open List Option
open StableSort
open scoped List

section

namespace Double

def unitsOfOverflow : Nat := 2 ^ 2098

-- Rounds to nearest even. Differences are multiples of the unit already.
def round (units : Int) : Double :=
  let magnitude := roundNat units.natAbs
  if unitsOfOverflow ≤ magnitude then .infinity (units < 0)
  else .finite (if units < 0 then -(magnitude : Int) else magnitude)

def sub : Double → Double → Double
  | .finite a, .finite b => round (a - b)
  | .finite _, .infinity negative => .infinity !negative
  | .infinity negative, .finite _ => .infinity negative
  | .infinity a, .infinity b => if a = b then .nan else .infinity a
  | _, _ => .nan

def sign : Double → Ordering
  | .finite units => compare units 0
  | .infinity true => .lt
  | .infinity false => .gt
  | .nan => .eq

theorem roundNat_pos (h : 0 < n) : 0 < roundNat n := by
  unfold roundNat roundHalfEven
  have hshift : 2 ^ (n.log2 - 52) ≤ n :=
    (Nat.pow_le_pow_right Nat.two_pos (Nat.sub_le ..)).trans (Nat.log2_self_le (Nat.ne_of_gt h))
  have hpow := Nat.two_pow_pos (n.log2 - 52)
  have hquotient := Nat.div_pos hshift hpow
  dsimp only
  split
  . exact Nat.mul_pos hquotient hpow
  split
  . exact Nat.mul_pos (Nat.succ_pos _) hpow
  . exact Nat.mul_pos (Nat.add_pos_left hquotient _) hpow

theorem sign_round (units : Int) : (round units).sign = compare units 0 := by
  unfold round
  dsimp only
  rcases Int.lt_trichotomy units 0 with hneg | rfl | hpos
  . have hround := roundNat_pos (n := units.natAbs) (by omega)
    rw [decide_eq_true hneg, if_pos hneg, Int.compare_eq_lt.mpr hneg]
    split
    . rfl
    . exact Int.compare_eq_lt.mpr (by omega)
  . have hzero : roundNat (Int.natAbs 0) = 0 := roundNat_of_le (Nat.zero_le _)
    have hoverflow : ¬unitsOfOverflow ≤ 0 := by
      rw [unitsOfOverflow]
      generalize 2098 = exponent
      exact Nat.not_le.mpr (Nat.two_pow_pos exponent)
    rw [hzero, if_neg hoverflow]
    rfl
  . have hround := roundNat_pos (n := units.natAbs) (by omega)
    have hnot := Int.not_lt.mpr (Int.le_of_lt hpos)
    rw [decide_eq_false hnot, if_neg hnot, Int.compare_eq_gt.mpr hpos]
    split
    . rfl
    . exact Int.compare_eq_gt.mpr (by omega)

theorem sign_sub {a b : Double} (ha : a ≠ .nan) (hb : b ≠ .nan) : (a.sub b).sign ≠ .gt ↔ a.le b := by
  rcases a with a | (_ | _) | _ <;> rcases b with b | (_ | _) | _
  case finite.finite =>
    have hsign : ((finite a).sub (finite b)).sign = compare (a - b) 0 := sign_round (a - b)
    have hle : (finite a).le (finite b) = decide (a ≤ b) := rfl
    rw [hsign, hle, decide_eq_true_eq, ne_eq, Int.compare_eq_gt]
    omega
  all_goals simp [sub, sign, le] at ha hb ⊢

end Double

end

section

inductive Comparator where
  | default
  | leftMinusRight
  | rightMinusLeft

def Comparator.fval : Comparator → Option ComparatorMatchResult
  | .default => none
  | .leftMinusRight => some .Match_LeftMinusRight
  | .rightMinusLeft => some .Match_RightMinusLeft

variable {Other : Type} (conversions : Conversions Other) (comparator : Comparator)

def compareDefined (x y : Value Other) : Option Ordering := do
  match comparator with
  | .default =>
    let xString ← ToString conversions x
    let yString ← ToString conversions y
    return if xString < yString then .lt else if yString < xString then .gt else .eq
  | .leftMinusRight =>
    let a ← ToNumber conversions x
    let b ← ToNumber conversions y
    return (a.sub b).sign
  | .rightMinusLeft =>
    let a ← ToNumber conversions x
    let b ← ToNumber conversions y
    return (b.sub a).sign

def SortCompare : Value Other → Value Other → Option Ordering
  | .undefined, .undefined => some .eq
  | .undefined, _ => some .gt
  | _, .undefined => some .lt
  | x, y => compareDefined conversions comparator x y

def Comparable (values : List (Value Other)) : Prop :=
  values.Pairwise fun x y =>
    SortCompare conversions comparator x y ≠ none ∧ SortCompare conversions comparator y x ≠ none

def definedValues (values : List (Value Other)) : List (Value Other) := values.filter (!isUndefined ·)

def undefs (values : List (Value Other)) : List (Value Other) := List.replicate (values.countP isUndefined) .undefined

-- The order is up to the implementation if the comparator returns NaN because it has been given NaN.
def Consistent (values : List (Value Other)) : Prop :=
  match comparator with
  | .default => True
  | _ => ∀ x ∈ definedValues values, ToNumber conversions x ≠ some .nan

inductive Sorts (elements : List (Option (Value Other))) : Except Failure (List (Option (Value Other))) → Prop where
  | ok {vec : List (Value Other)} (hcomparable : Comparable conversions comparator (present elements))
      (hperm : vec.Perm (definedValues (present elements)))
      (hsorted : Consistent conversions comparator (present elements) → vec ++ undefs (present elements)
          = (present elements).mergeSort fun x y => SortCompare conversions comparator x y ≠ some .gt)
    : Sorts elements (.ok ((vec ++ undefs (present elements)).map some
        ++ List.replicate (elements.length - (present elements).length) none))
  | error (hnot : ¬Comparable conversions comparator (present elements)) : Sorts elements (.error .exception)

def converts (x : Value Other) : Bool :=
  match comparator with
  | .default => (ToString conversions x).isSome
  | _ => (ToNumber conversions x).isSome

def LoneUnconvertible (elements : List (Option (Value Other))) : Prop :=
  2 ≤ elements.length ∧ ∃ x, definedValues (present elements) = [x] ∧ ¬converts conversions comparator x

def keyLe (x y : Value Other) : Bool :=
  match comparator with
  | .default => lexicographicLe conversions x y
  | .leftMinusRight => numericLe conversions .Match_LeftMinusRight x y
  | .rightMinusLeft => numericLe conversions .Match_RightMinusLeft x y

def valueLe (x y : Value Other) : Bool := isUndefined y || !isUndefined x && keyLe conversions comparator x y

end

section

variable {Other : Type} {conversions : Conversions Other} {comparator : Comparator}

theorem keyLe_totalPreorder (conversions : Conversions Other) (comparator : Comparator)
    : TotalPreorder (keyLe conversions comparator) := by
  unfold keyLe
  cases comparator
  case default => exact lexicographicLe_totalPreorder
  case leftMinusRight => exact numericLe_totalPreorder .Match_LeftMinusRight
  case rightMinusLeft => exact numericLe_totalPreorder .Match_RightMinusLeft

theorem valueLe_totalPreorder : TotalPreorder (valueLe conversions comparator) where
  trans x y z hxy hyz := by
    have htrans := (keyLe_totalPreorder conversions comparator).trans x y z
    unfold valueLe at hxy hyz ⊢
    grind
  total x y := by
    have htotal := (keyLe_totalPreorder conversions comparator).total x y
    unfold valueLe
    grind

variable {x y : Value Other}

theorem SortCompare_of_defined (hx : ¬isUndefined x) (hy : ¬isUndefined y)
    : SortCompare conversions comparator x y = compareDefined conversions comparator x y := by
  cases x <;> cases y <;> first | rfl | exact absurd rfl hx | exact absurd rfl hy

theorem compareDefined_ne_none_iff (x y : Value Other)
    : compareDefined conversions comparator x y ≠ none
      ↔ converts conversions comparator x ∧ converts conversions comparator y := by
  unfold compareDefined converts
  cases comparator
  case default => cases ToString conversions x <;> cases ToString conversions y <;> simp
  all_goals cases ToNumber conversions x <;> cases ToNumber conversions y <;> simp

theorem SortCompare_pair_iff (hx : ¬isUndefined x) (hy : ¬isUndefined y)
    : (SortCompare conversions comparator x y ≠ none ∧ SortCompare conversions comparator y x ≠ none)
      ↔ converts conversions comparator x ∧ converts conversions comparator y := by
  rw [SortCompare_of_defined hx hy, SortCompare_of_defined hy hx, compareDefined_ne_none_iff,
    compareDefined_ne_none_iff]
  tauto

theorem SortCompare_pair_of_undefined (h : isUndefined x ∨ isUndefined y)
    : SortCompare conversions comparator x y ≠ none ∧ SortCompare conversions comparator y x ≠ none := by
  cases x <;> cases y <;> simp [isUndefined, SortCompare] at h ⊢

theorem comparable_iff_pairwise (values : List (Value Other))
    : Comparable conversions comparator values ↔ (definedValues values).Pairwise fun x y =>
        converts conversions comparator x ∧ converts conversions comparator y := by
  rw [Comparable, definedValues, pairwise_filter]
  apply List.Pairwise.iff
  intro x y
  simp only [Bool.not_eq_true']
  by_cases hx : isUndefined x
  . rw [hx]
    exact iff_of_true (SortCompare_pair_of_undefined (.inl hx)) nofun
  by_cases hy : isUndefined y
  . rw [hy]
    exact iff_of_true (SortCompare_pair_of_undefined (.inr hy)) fun _ => nofun
  rw [SortCompare_pair_iff hx hy]
  exact ⟨fun h _ _ => h, fun h => h (Bool.eq_false_iff.mpr hx) (Bool.eq_false_iff.mpr hy)⟩

theorem comparable_iff (values : List (Value Other))
    : Comparable conversions comparator values
      ↔ (∀ x ∈ definedValues values, converts conversions comparator x) ∨ (definedValues values).length ≤ 1 := by
  rw [comparable_iff_pairwise]
  rcases hvalues : definedValues values with _ | ⟨x, _ | ⟨y, rest⟩⟩
  . exact iff_of_true .nil (.inr (Nat.zero_le 1))
  . exact iff_of_true (pairwise_singleton _ x) (.inr Nat.le.refl)
  constructor
  . intro hpairwise
    refine .inl fun z hz => ?_
    rcases mem_cons.mp hz with rfl | hz
    . exact (rel_of_pairwise_cons hpairwise mem_cons_self).1
    . exact (rel_of_pairwise_cons hpairwise hz).2
  rintro (hall | hlength)
  . apply pairwise_of_forall_mem_list
    intro z hz w hw
    exact ⟨hall z hz, hall w hw⟩
  . rw [length_cons, length_cons] at hlength
    omega

theorem compareStrings_ne_gt_iff (s t : List CharT)
    : (if s < t then Ordering.lt else if t < s then .gt else .eq) ≠ .gt ↔ s ≤ t := by
  split
  next hlt => exact iff_of_true nofun (List.le_of_lt hlt)
  split
  next hgt => exact iff_of_false (fun hne => hne rfl) (List.not_le.mpr hgt)
  next hle => exact iff_of_true nofun (List.not_lt.mp hle)

variable {values : List (Value Other)}

theorem Consistent.asNumber_ne_nan (h : Consistent conversions comparator values)
    (hcomparator : comparator ≠ .default) (hall : ∀ x ∈ definedValues values, converts conversions comparator x)
    (hx : x ∈ definedValues values) : ToNumber conversions x = some (asNumber conversions x)
      ∧ asNumber conversions x ≠ .nan := by
  have hconverts := hall x hx
  unfold Consistent at h
  unfold converts at hconverts
  cases comparator
  case default => exact absurd rfl hcomparator
  all_goals
    obtain ⟨a, ha⟩ := isSome_iff_exists.mp hconverts
    have hnan := h x hx
    rw [ha] at hnan
    rw [asNumber, ha, getD_some]
    exact ⟨rfl, fun heq => hnan (congrArg some heq)⟩

theorem compareDefined_eq_keyLe (hconsistent : Consistent conversions comparator values)
    (hall : ∀ x ∈ definedValues values, converts conversions comparator x)
    (hx : x ∈ definedValues values) (hy : y ∈ definedValues values)
    : compareDefined conversions comparator x y ≠ some .gt ↔ keyLe conversions comparator x y := by
  cases comparator
  case default =>
    obtain ⟨s, hs⟩ := isSome_iff_exists.mp (hall x hx)
    obtain ⟨t, ht⟩ := isSome_iff_exists.mp (hall y hy)
    rw [compareDefined, keyLe, lexicographicLe, asString, asString, hs, ht, decide_eq_true_eq, getD_some,
      getD_some, ← compareStrings_ne_gt_iff]
    exact not_congr some_inj
  case leftMinusRight =>
    obtain ⟨ha, hnana⟩ := hconsistent.asNumber_ne_nan (fun h => by cases h) hall hx
    obtain ⟨hb, hnanb⟩ := hconsistent.asNumber_ne_nan (fun h => by cases h) hall hy
    rw [compareDefined, keyLe, numericLe, ha, hb]
    change ¬some _ = some _ ↔ (asNumber conversions x).nanLast (asNumber conversions y)
    rw [some_inj, Double.nanLast_eq hnanb]
    exact Double.sign_sub hnana hnanb
  case rightMinusLeft =>
    obtain ⟨ha, hnana⟩ := hconsistent.asNumber_ne_nan (fun h => by cases h) hall hx
    obtain ⟨hb, hnanb⟩ := hconsistent.asNumber_ne_nan (fun h => by cases h) hall hy
    rw [compareDefined, keyLe, numericLe, ha, hb]
    change ¬some _ = some _ ↔ (asNumber conversions y).nanLast (asNumber conversions x)
    rw [some_inj, Double.nanLast_eq hnana]
    exact Double.sign_sub hnanb hnana

theorem SortCompare_eq_valueLe (hconsistent : Consistent conversions comparator values)
    (hall : ∀ x ∈ definedValues values, converts conversions comparator x) (hx : x ∈ values) (hy : y ∈ values)
    : decide (SortCompare conversions comparator x y ≠ some .gt) = valueLe conversions comparator x y := by
  have hdefined (z : Value Other) (hz : z ∈ values) (hnot : ¬isUndefined z) : z ∈ definedValues values :=
    mem_filter.mpr ⟨hz, by rw [Bool.eq_false_iff.mpr hnot]; rfl⟩
  by_cases hxu : isUndefined x
  . cases x <;> cases y <;> first | rfl | exact absurd hxu Bool.false_ne_true
  by_cases hyu : isUndefined y
  . cases x <;> cases y <;> first | rfl | exact absurd hyu Bool.false_ne_true
  have hkey := compareDefined_eq_keyLe hconsistent hall (hdefined x hx hxu) (hdefined y hy hyu)
  rw [valueLe, Bool.eq_false_iff.mpr hxu, Bool.eq_false_iff.mpr hyu, SortCompare_of_defined hxu hyu, Bool.eq_iff_iff,
    decide_eq_true_eq]
  exact hkey

theorem mergeSort_eq (hconsistent : Consistent conversions comparator values)
    (hall : ∀ x ∈ definedValues values, converts conversions comparator x)
    : (values.mergeSort fun x y => SortCompare conversions comparator x y ≠ some .gt)
      = (definedValues values).mergeSort (keyLe conversions comparator) ++ undefs values := by
  have hbelow (x y : Value Other) (hx : !isUndefined x) (hy : ¬(!isUndefined y))
      : valueLe conversions comparator x y ∧ ¬valueLe conversions comparator y x := by
    unfold valueLe
    grind
  have hdefined : (values.filter (!isUndefined ·)).mergeSort (valueLe conversions comparator)
      = (definedValues values).mergeSort (keyLe conversions comparator) := by
    refine mergeSort_congr fun x hx y hy => ?_
    have hxdefined := (mem_filter.mp hx).2
    have hydefined := (mem_filter.mp hy).2
    unfold valueLe
    grind
  have hundefined : (values.filter (!!isUndefined ·)).mergeSort (valueLe conversions comparator) = undefs values := by
    have hperm := mergeSort_perm (values.filter (!!isUndefined ·)) (valueLe conversions comparator)
    refine eq_replicate_iff.mpr ⟨?_, fun x hx => ?_⟩
    . rw [hperm.length_eq, countP_eq_length_filter]
      simp only [Bool.not_not]
    . have hxu := (mem_filter.mp (hperm.mem_iff.mp hx)).2
      cases x <;> first | rfl | exact absurd hxu Bool.false_ne_true
  rw [mergeSort_congr fun x hx y hy => SortCompare_eq_valueLe hconsistent hall hx hy,
    valueLe_totalPreorder.mergeSort_eq_append hbelow, hdefined, hundefined]

theorem writeBack (elements : List (Option (Value Other))) (vec undefs : List (Value Other))
    : Overwrite.overwrite
        (Overwrite.overwrite (Overwrite.overwrite elements 0 (vec.map some)) vec.length (undefs.map some))
        (vec.length + undefs.length) (List.replicate (elements.length - (vec.length + undefs.length)) none)
      = (vec ++ undefs).map some ++ List.replicate (elements.length - (vec ++ undefs).length) none := by
  have hvec := Overwrite.overwrite_concat [] elements (vec.map some)
  have hundefs := Overwrite.overwrite_concat (vec.map some) (elements.drop vec.length) (undefs.map some)
  rw [nil_append, nil_append, length_map, length_nil] at hvec
  rw [length_map, length_map, drop_drop, ← map_append] at hundefs
  rw [hvec, hundefs]
  have hholes : Overwrite.overwrite ((vec ++ undefs).map some ++ elements.drop (vec.length + undefs.length))
        ((vec ++ undefs).map some).length (List.replicate (elements.length - (vec.length + undefs.length)) none)
      = (vec ++ undefs).map some ++ List.replicate (elements.length - (vec.length + undefs.length)) none :=
    Overwrite.overwrite_append (by rw [length_drop, length_replicate])
  rw [length_map, length_append] at hholes
  rw [hholes, length_append]

theorem sortValues_ok (hall : ∀ x ∈ definedValues values, converts conversions comparator x)
    : ∃ vec, sortValues conversions (comparator.fval.getD .Match_None) (collected values) = .ok vec
      ∧ vec.Perm (definedValues values)
      ∧ (Consistent conversions comparator values →
        vec = (definedValues values).mergeSort (keyLe conversions comparator)) := by
  cases comparator
  case default => exact ⟨_, sortValues_default_ok _ hall, mergeSort_perm .., fun _ => rfl⟩
  case leftMinusRight =>
    obtain ⟨vec, hsort, hperm, hsorted⟩ :=
      sortValues_numeric_ok (values.countP isUndefined) (.inl rfl) hall
    exact ⟨vec, hsort, hperm, fun hconsistent => hsorted fun x hx => (hconsistent.asNumber_ne_nan nofun hall hx).2⟩
  case rightMinusLeft =>
    obtain ⟨vec, hsort, hperm, hsorted⟩ :=
      sortValues_numeric_ok (values.countP isUndefined) (.inr rfl) hall
    exact ⟨vec, hsort, hperm, fun hconsistent => hsorted fun x hx => (hconsistent.asNumber_ne_nan nofun hall hx).2⟩

theorem sortValues_error (h : ¬∀ x ∈ definedValues values, converts conversions comparator x)
    : sortValues conversions (comparator.fval.getD .Match_None) (collected values) = .error .exception := by
  rw [not_forall₂] at h
  obtain ⟨x, hx, hnot⟩ := h
  have hnone {β : Type} {result : Option β} (hnot : ¬result.isSome) : result = none :=
    not_isSome_iff_eq_none.mp hnot
  cases comparator
  case default => exact sortValues_default_error _ ⟨x, hx, hnone hnot⟩
  case leftMinusRight => exact sortValues_numeric_error _ (.inl rfl) ⟨x, hx, hnone hnot⟩
  case rightMinusLeft => exact sortValues_numeric_error _ (.inr rfl) ⟨x, hx, hnone hnot⟩

theorem length_present (values : List (Value Other))
    : (definedValues values).length + (undefs values).length = values.length := by
  have hlength := (filter_append_perm isUndefined values).length_eq
  rw [length_append] at hlength
  rw [definedValues, undefs, length_replicate, countP_eq_length_filter, Nat.add_comm]
  exact hlength

theorem intrinsic_ArrayNativeSort_eq (conversions : Conversions Other) (comparator : Comparator)
    {array : DenseArray Other} (hlen : 2 ≤ array.elements.length) (hpresent : present array.elements ≠ [])
    : intrinsic_ArrayNativeSort conversions comparator.fval array = do
        let vec ← sortValues conversions (comparator.fval.getD .Match_None) (collected (present array.elements))
        let n := (definedValues (present array.elements)).length
        let undefs := undefs (present array.elements)
        let elements := Overwrite.overwrite array.elements 0 (vec.map some)
        let elements := Overwrite.overwrite elements n (undefs.map some)
        let n := n + undefs.length
        return (true, Overwrite.overwrite elements n (List.replicate (array.elements.length - n) none)) := by
  have hfailure : comparator.fval ≠ some .Match_Failure := by cases comparator <;> exact nofun
  have hnone : comparator.fval ≠ some .Match_None := by cases comparator <;> exact nofun
  have hlength := length_present (present array.elements)
  have hpos := length_pos_iff.mpr hpresent
  have hnonempty
      : ¬((definedValues (present array.elements)).length = 0 ∧ (present array.elements).countP isUndefined = 0) := by
    rw [undefs, length_replicate] at hlength
    omega
  rw [intrinsic_ArrayNativeSort, if_neg hfailure, if_neg hnone]
  dsimp only
  rw [if_neg (Nat.not_lt.mpr hlen), if_neg (Nat.not_lt.mpr array.length_le), collectElements_eq]
  change (if (definedValues (present array.elements)).length = 0 ∧ (present array.elements).countP isUndefined = 0
    then _ else _) = _
  rw [if_neg hnonempty, undefs, map_replicate, length_replicate]
  rfl

theorem intrinsic_ArrayNativeSort_unchanged (conversions : Conversions Other) (comparator : Comparator)
    {array : DenseArray Other} (h : array.elements.length < 2 ∨ present array.elements = [])
    : intrinsic_ArrayNativeSort conversions comparator.fval array = .ok (true, array.elements) := by
  have hfailure : comparator.fval ≠ some .Match_Failure := by cases comparator <;> exact nofun
  have hnone : comparator.fval ≠ some .Match_None := by cases comparator <;> exact nofun
  rw [intrinsic_ArrayNativeSort, if_neg hfailure, if_neg hnone]
  dsimp only
  by_cases hlen : array.elements.length < 2
  . rw [if_pos hlen]
    rfl
  . rw [if_neg hlen, if_neg (Nat.not_lt.mpr array.length_le), collectElements_eq, h.resolve_left hlen]
    rfl

variable {elements : List (Option (Value Other))}

theorem eq_replicate_of_present (h : present elements = [])
    : elements = List.replicate elements.length none := by
  refine eq_replicate_iff.mpr ⟨rfl, fun element helement => ?_⟩
  exact filterMap_eq_nil_iff.mp h element helement

theorem sorts_self (hlength : (present elements).length ≤ 1)
    (h : elements = (present elements).map some ++ List.replicate (elements.length - (present elements).length) none)
    : Sorts conversions comparator elements (.ok elements) := by
  have hdefined (values : List (Value Other)) (hlength : values.length ≤ 1)
      : definedValues values ++ undefs values = values := by
    match values with
    | [] => rfl
    | [v] => cases v <;> rfl
  have hsorted (values : List (Value Other)) (hlength : values.length ≤ 1) (le : Value Other → Value Other → Bool)
      : values = values.mergeSort le := by
    match values with
    | [] => exact mergeSort_nil.symm
    | [v] => exact (mergeSort_singleton v).symm
  have hcomparable : Comparable conversions comparator (present elements) := by
    rw [comparable_iff]
    exact .inr ((length_filter_le ..).trans hlength)
  have hsorts := Sorts.ok hcomparable (.refl _) fun _ => (hdefined _ hlength).trans (hsorted _ hlength _)
  rwa [hdefined _ hlength, ← h] at hsorts

theorem sorts_unchanged (h : elements.length < 2 ∨ present elements = [])
    : Sorts conversions comparator elements (.ok elements) := by
  by_cases hnone : present elements = []
  . apply sorts_self
    . rw [hnone]
      exact Nat.zero_le 1
    . rw [hnone]
      exact eq_replicate_of_present hnone
  have hlength := h.resolve_right hnone
  match elements with
  | [] => exact absurd rfl hnone
  | [none] => exact absurd rfl hnone
  | [some v] => exact sorts_self Nat.le.refl rfl
  | _ :: _ :: elements =>
    rw [length_cons, length_cons] at hlength
    omega

theorem sorts_sorted {vec : List (Value Other)}
    (hall : ∀ x ∈ definedValues (present elements), converts conversions comparator x)
    (hperm : vec.Perm (definedValues (present elements)))
    (hsorted : Consistent conversions comparator (present elements) →
      vec = (definedValues (present elements)).mergeSort (keyLe conversions comparator))
    : Sorts conversions comparator elements (.ok ((vec ++ undefs (present elements)).map some
      ++ List.replicate (elements.length - (present elements).length) none)) := by
  refine .ok ((comparable_iff _).mpr (.inl hall)) hperm fun hconsistent => ?_
  rw [mergeSort_eq hconsistent hall, hsorted hconsistent]

theorem intrinsic_ArrayNativeSort_sorts_iff (comparator : Comparator) (array : DenseArray Other)
    : (∃ outcome, intrinsic_ArrayNativeSort conversions comparator.fval array
          = outcome.map (fun elements => (true, elements)) ∧ Sorts conversions comparator array.elements outcome)
      ↔ ¬LoneUnconvertible conversions comparator array.elements := by
  by_cases hunchanged : array.elements.length < 2 ∨ present array.elements = []
  . have hnative := intrinsic_ArrayNativeSort_unchanged conversions comparator hunchanged
    refine iff_of_true ⟨.ok array.elements, hnative, sorts_unchanged hunchanged⟩ ?_
    rintro ⟨hlen, x, hx, _⟩
    rcases hunchanged with hshort | hnone
    . exact absurd hlen (Nat.not_le.mpr hshort)
    . rw [hnone] at hx
      exact cons_ne_nil x [] hx.symm
  rw [not_or, Nat.not_lt] at hunchanged
  obtain ⟨hlen, hpresent⟩ := hunchanged
  have heq := intrinsic_ArrayNativeSort_eq conversions comparator hlen hpresent
  by_cases hall : ∀ x ∈ definedValues (present array.elements), converts conversions comparator x
  . obtain ⟨vec, hsort, hperm, hsorted⟩ := sortValues_ok hall
    have hlength := length_present (present array.elements)
    have hback := writeBack array.elements vec (undefs (present array.elements))
    rw [length_append, hperm.length_eq, hlength] at hback
    rw [hsort] at heq
    refine iff_of_true ⟨_, heq.trans ?_, sorts_sorted hall hperm hsorted⟩ ?_
    . change Except.ok (true, _) = Except.ok (true, _)
      rw [hlength, hback]
    . rintro ⟨_, x, hx, hnot⟩
      exact hnot (hall x (hx ▸ mem_singleton_self x))
  rw [sortValues_error hall] at heq
  constructor
  . rintro ⟨outcome, houtcome, hsorts⟩ ⟨_, x, hx, _⟩
    cases hsorts with
    | ok hcomparable hperm hsorted =>
      rw [heq] at houtcome
      exact nomatch houtcome
    | error hnot =>
      apply hnot
      rw [comparable_iff, hx]
      exact .inr Nat.le.refl
  . intro hlone
    refine ⟨.error .exception, heq, .error fun hcomparable => ?_⟩
    have hlength := ((comparable_iff _).mp hcomparable).resolve_left hall
    rw [not_forall₂] at hall
    obtain ⟨x, hx, hnot⟩ := hall
    obtain ⟨y, hy⟩ := length_eq_one_iff.mp (Nat.le_antisymm hlength (length_pos_of_mem hx))
    rw [hy, mem_singleton] at hx
    exact hlone ⟨hlen, x, hx ▸ hy, hnot⟩

end

theorem arraySort_exact_iff {Other : Type} (conversions : Conversions Other)
    : (∀ a b : Int32, CompareLexicographicInt32 a b = some (decide (Int32ToString a ≤ Int32ToString b)))
      ∧ (∀ (κ α : Type) (keys : List (SortElement κ)) (comparator : κ → κ → Bool) (vec : List α),
        keys.map (·.elementIndex) = List.range keys.length → keys.length ≤ vec.length →
          ∃ vec', MergeSortByKey keys comparator vec = some vec' ∧ vec'.Perm vec ∧ (TotalPreorder comparator →
              vec' = (((keys.map (·.key)).zip vec).mergeSort fun a b => comparator a.1 b.1).map Prod.snd
                ++ vec.drop keys.length))
      ∧ ∀ (comparator : Comparator) (array : DenseArray Other),
        (∃ outcome, intrinsic_ArrayNativeSort conversions comparator.fval array
            = outcome.map (fun elements => (true, elements)) ∧ Sorts conversions comparator array.elements outcome)
        ↔ ¬LoneUnconvertible conversions comparator array.elements := by
  refine ⟨CompareLexicographicInt32_eq, ?_, intrinsic_ArrayNativeSort_sorts_iff⟩
  intro κ α keys comparator vec hindex hlen
  obtain ⟨vec', hsort, hperm⟩ := MergeSortByKey_perm hindex hlen comparator
  refine ⟨vec', hsort, hperm, fun hpreorder => ?_⟩
  rw [MergeSortByKey_eq hpreorder hindex hlen] at hsort
  exact (some_inj.mp hsort).symm

def symbolConversions : Conversions Unit where
  NumberToString _ := []
  StringToNumber _ := 0
  OtherToString _ := none
  OtherToNumber _ := none

def undefinedAndSymbol : DenseArray Unit where
  elements := [some .undefined, some (.other ())]
  packed := true
  length_le := by decide
  noHoles := by decide

theorem arraySort_undefinedAndSymbol_throws
    : intrinsic_ArrayNativeSort symbolConversions none undefinedAndSymbol = .error .exception
      ∧ Sorts symbolConversions .default undefinedAndSymbol.elements (.ok [some (.other ()), some .undefined])
      ∧ ¬Sorts symbolConversions .default undefinedAndSymbol.elements (.error .exception) := by
  have hcomparable : Comparable symbolConversions .default (present undefinedAndSymbol.elements) :=
    (comparable_iff _).mpr (.inr Nat.le.refl)
  have hperm : [Value.other ()].Perm (definedValues (present undefinedAndSymbol.elements)) := .refl _
  refine ⟨rfl, .ok hcomparable hperm fun _ => ?_, ?_⟩
  . have hsort : [Value.undefined, .other ()].mergeSort
          (fun x y => SortCompare symbolConversions .default x y ≠ some .gt)
        = [.other (), .undefined] := by
      simp [List.mergeSort, List.MergeSort.Internal.splitInTwo, SortCompare]
    exact hsort.symm
  . rintro (_ | hnot)
    exact hnot hcomparable

end SpiderMonkey.ArraySort
