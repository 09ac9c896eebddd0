import Mathlib.Data.Int.Bitwise
import SpiderMonkey.BigInt.Impl.Bitwise
import SpiderMonkey.BigInt.Lemmas.MultiDigit
import SpiderMonkey.BigInt.Shift

/-!
This module contains the verification of the bitwise operators: they work on the bits of infinite two's complement.
-/

namespace SpiderMonkey.BigInt

open BitVec

variable {p : Platform}

section Digits

def digitAt (x : BigInt p) (i : Nat) : Digit p := if i < x.digitLength then x.digit i else 0

theorem testBit_abs (x : BigInt p) (i : Nat) (hj : j < digitBits p)
    : x.abs.testBit (digitBits p * i + j) = (x.digitAt i).getLsbD j := by
  unfold digitAt
  split
  next hi =>
    obtain ⟨m, hm⟩ := Nat.exists_eq_add_of_lt hi
    have hlow := sliceValue_lt x 0 i
    rw [base, ← pow_mul] at hlow
    rw [abs, hm, Nat.add_assoc, sliceValue_add, Nat.add_comm, base, ← pow_mul, Nat.testBit_two_pow_mul_add _ hlow,
      if_neg (by omega), Nat.add_sub_cancel_left, sliceValue_succ_low, Nat.add_comm, base,
      Nat.testBit_two_pow_mul_add _ (x.digit _).isLt, if_pos hj, Nat.zero_add]
    rfl
  next hi =>
    have hlt := abs_lt x
    rw [base, ← pow_mul] at hlt
    have hle : digitBits p * x.digitLength ≤ digitBits p * i + j :=
      Nat.le_add_right_of_le (Nat.mul_le_mul_left _ (Nat.le_of_not_lt hi))
    rw [Nat.testBit_lt_two_pow (Nat.lt_of_lt_of_le hlt (Nat.pow_le_pow_right (by decide) hle))]
    exact getLsbD_zero.symm

theorem abs_eq_bitwise {f : Bool → Bool → Bool} (hf : f false false = false) {x y r : BigInt p}
    (h : ∀ i j, j < digitBits p → (r.digitAt i).getLsbD j = f ((x.digitAt i).getLsbD j) ((y.digitAt i).getLsbD j))
    : r.abs = Nat.bitwise f x.abs y.abs := by
  have hpos := two_le_digitBits (p := p)
  apply Nat.eq_of_testBit_eq
  intro k
  have hj : k % digitBits p < digitBits p := Nat.mod_lt _ (by omega)
  rw [Nat.testBit_bitwise hf, ← Nat.div_add_mod k (digitBits p)]
  simp only [testBit_abs _ _ hj]
  exact h _ _ hj

theorem opDigits_inv (op : Digit p → Digit p → Digit p) (x y result : BigInt p) (n : Nat)
    : (opDigits op x y result n).digitLength = result.digitLength ∧
      (opDigits op x y result n).isNegative = result.isNegative ∧
      ∀ i, (opDigits op x y result n).digit i = if i < n then op (x.digit i) (y.digit i) else result.digit i := by
  unfold opDigits
  apply Loop.fold_inv n _ _ (fun m (a : BigInt p) => a.digitLength = result.digitLength ∧
    a.isNegative = result.isNegative ∧ ∀ i, a.digit i = if i < m then op (x.digit i) (y.digit i) else result.digit i)
  . simp
  intro m _ r ⟨hlen, hneg, hdigit⟩
  refine ⟨hlen, hneg, ?_⟩
  intro i
  rw [setDigit_digit, hdigit]
  rcases Nat.lt_trichotomy i m with h | h | h
  . rw [if_neg (by omega), if_pos h, if_pos (by omega)]
  . rw [if_pos h, if_pos (by omega), h]
  . rw [if_neg (by omega), if_neg (by omega), if_neg (by omega)]

-- The digits without a partner are zero or unchanged in the result, and so are their bits.
def Fills (f : Bool → Bool → Bool) : BitwiseOpKind → Prop
  | .SymmetricTrim => ∀ b, f false b = false ∧ f b false = false
  | .SymmetricFill => ∀ b, f false b = b ∧ f b false = b
  | .AsymmetricFill => ∀ b, f false b = false ∧ f b false = b

theorem absoluteBitwiseOp_ensures {kind : BitwiseOpKind} {op : Digit p → Digit p → Digit p}
    {f : Bool → Bool → Bool} (hkind : Fills f kind)
    (hop : ∀ a b j, j < digitBits p → (op a b).getLsbD j = f (a.getLsbD j) (b.getLsbD j)) (x y : BigInt p)
    : Ensures (absoluteBitwiseOp kind op x y) (Is false (Nat.bitwise f x.abs y.abs)) := by
  have hf : f false false = false := by
    cases kind <;> exact (hkind false).1
  unfold absoluteBitwiseOp
  apply Ensures.bind (createUninitialized_ensures _ _)
  intro r ⟨hlen, hneg, hmax⟩
  have ⟨hlen', hneg', hdigit⟩ := opDigits_inv op x y r (min x.digitLength y.digitLength)
  dsimp only
  generalize opDigits op x y r (min x.digitLength y.digitLength) = r' at *
  have hcopy (source : BigInt p) (n : Nat) (hlength : r.digitLength = min x.digitLength y.digitLength + n)
      (hsource : ∀ i j, ¬(i < x.digitLength ∧ i < y.digitLength)
        → (if i < r.digitLength then source.digit i else 0).getLsbD j
          = f ((x.digitAt i).getLsbD j) ((y.digitAt i).getLsbD j))
      : Ensures (destructivelyTrimHighZeroDigits (copyDigits source (min x.digitLength y.digitLength) r'
          (min x.digitLength y.digitLength) n)) (Is false (Nat.bitwise f x.abs y.abs)) := by
    refine trim_ensures ?_ ?_ (fun _ => rfl) ?_
    . rw [copyDigits_isNegative, hneg', hneg]
    . rw [copyDigits_digitLength]
      omega
    apply abs_eq_bitwise hf
    intro i j hj
    by_cases h : i < x.digitLength ∧ i < y.digitLength
    . rw [digitAt, copyDigits_digitLength, copyDigits_digit, hdigit, if_pos (by omega), if_neg (by omega),
        if_pos (by omega), hop _ _ _ hj, digitAt, if_pos h.1, digitAt, if_pos h.2]
    rw [← hsource i j h, digitAt, copyDigits_digitLength, copyDigits_digit, hlen']
    congr 1
    split
    . rw [if_pos (by omega), Nat.add_sub_cancel' (by omega)]
    . rfl
  have hzero (j : Nat) : (0 : Digit p).getLsbD j = false := getLsbD_zero
  cases kind with
  | SymmetricTrim =>
    dsimp only at hlen ⊢
    rw [if_neg (by decide)]
    refine hcopy x 0 hlen ?_
    intro i j hboth
    rw [if_neg (by omega), hzero]
    unfold digitAt
    by_cases hx : i < x.digitLength
    . rw [if_neg (fun hy => hboth ⟨hx, hy⟩), hzero, (hkind _).2]
    . rw [if_neg hx, hzero, (hkind _).1]
  | SymmetricFill =>
    dsimp only at hlen ⊢
    rw [if_pos (by decide), if_neg (by decide)]
    apply hcopy
    . omega
    intro i j hboth
    unfold digitAt
    by_cases hx : i < x.digitLength
    . have hy : ¬i < y.digitLength := fun hy => hboth ⟨hx, hy⟩
      rw [if_pos (by omega), if_neg (by omega), if_pos hx, if_neg hy, hzero, (hkind _).2]
    rw [if_neg hx, hzero, (hkind _).1]
    by_cases hy : i < y.digitLength
    . rw [if_pos (by omega), if_pos (by omega), if_pos hy]
    . rw [if_neg (by omega), if_neg hy]
  | AsymmetricFill =>
    dsimp only at hlen ⊢
    rw [if_pos (by decide), if_pos rfl]
    apply hcopy
    . omega
    intro i j hboth
    unfold digitAt
    by_cases hx : i < x.digitLength
    . have hy : ¬i < y.digitLength := fun hy => hboth ⟨hx, hy⟩
      rw [if_pos (by omega), if_pos hx, if_neg hy, hzero, (hkind _).2]
    . rw [if_neg (by omega), if_neg hx, hzero, (hkind _).1]

theorem subOneDigits_inv (x result : BigInt p) (n : Nat)
    : (subOneDigits x result n).1.digitLength = result.digitLength ∧
      (subOneDigits x result n).1.isNegative = result.isNegative ∧
      (subOneDigits x result n).1.sliceValue 0 n + 1
        = x.sliceValue 0 n + (subOneDigits x result n).2.toNat * base p ^ n := by
  unfold subOneDigits
  apply Loop.fold_inv n _ _ (fun i (a : BigInt p × Digit p) => a.1.digitLength = result.digitLength ∧
    a.1.isNegative = result.isNegative ∧ a.1.sliceValue 0 i + 1 = x.sliceValue 0 i + a.2.toNat * base p ^ i)
  . dsimp only
    rw [toNat_one]
    simp
  intro i _ ⟨r, borrow⟩ ⟨hlen, hneg, hval⟩
  have hsub := digitSub_toNat (x.digit i) borrow 0 (by rw [toNat_zero]; exact one_lt_base)
  rw [toNat_zero, Nat.zero_mul, Nat.add_zero] at hsub
  have hstep := sliceValue_borrow hval (u := 0) ((congrArg (· + _) (Nat.add_zero _)).trans hsub)
  rw [Nat.zero_add, Nat.zero_mul] at hstep
  refine ⟨hlen, hneg, hstep.trans ?_⟩
  rw [sliceValue_succ, Nat.zero_add]

theorem absoluteSubOne_ensures {x : BigInt p} (hx : Canonical x) (hx0 : x.digitLength ≠ 0)
    : Ensures (absoluteSubOne x false) (Is false (x.abs - 1)) := by
  have hpos := mt hx.abs_eq_zero_iff.mp hx0
  unfold absoluteSubOne
  apply Ensures.ite
  . intro hone
    have habs := abs_of_length_one hone
    apply Ensures.ite
    . intro hd
      rw [habs, hd, toNat_one]
      exact zero_ensures_toInt
    intro hd
    have hd1 : (x.digit 0).toNat ≠ 1 := fun h => hd (eq_of_toNat_eq (h.trans toNat_one.symm))
    have hle : (1 : Digit p).toNat ≤ (x.digit 0).toNat := by
      rw [toNat_one]
      omega
    have hsub := toNat_sub_of_le hle
    rw [toNat_one, ← habs] at hsub
    have hd0 : x.digit 0 - 1 ≠ 0 := by
      intro h
      rw [h, toNat_zero] at hsub
      omega
    apply Ensures.mono (createFromDigit_ensures hd0 false)
    rintro r ⟨hr, habs', hneg⟩
    refine ⟨hr, ?_⟩
    rw [toInt, hneg, habs', hsub]
    rfl
  . intro hlong
    apply Ensures.bind (createUninitialized_ensures _ _)
    rintro r ⟨hlen, hneg, hmax⟩
    obtain ⟨hlen', hneg', hval⟩ := subOneDigits_inv x r x.digitLength
    have hlt := abs_lt x
    have hle := sliceValue_lt (subOneDigits x r x.digitLength).1 0 x.digitLength
    refine trim_ensures (hneg'.trans hneg) (by omega) (fun _ => rfl) ?_
    rw [abs, hlen', hlen]
    change _ = x.abs + _ at hval
    rcases Nat.eq_zero_or_pos (subOneDigits x r x.digitLength).2.toNat with hzero | hborrow
    . rw [hzero, Nat.zero_mul] at hval
      omega
    . have := Nat.mul_le_mul_right (base p ^ x.digitLength) hborrow
      omega

end Digits

section Operators

variable {x y : BigInt p}

-- The bits of a number in infinite two's complement are those of its magnitude, or their complements.
def rawBits (x : BigInt p) : Nat := if x.isNegative then x.abs - 1 else x.abs

theorem testBit_toInt (hx : Canonical x) (k : Nat) : x.toInt.testBit k = (x.isNegative ^^ (rawBits x).testBit k) := by
  unfold toInt rawBits
  cases hneg : x.isNegative with
  | false => exact (Bool.false_xor _).symm
  | true =>
    have hpos : x.abs ≠ 0 := by
      intro h
      have := hx.zero_nonneg (hx.abs_eq_zero_iff.mp h)
      simp [hneg] at this
    obtain ⟨m, hm⟩ := Nat.exists_eq_add_one_of_ne_zero hpos
    rw [if_pos rfl, if_pos rfl, hm, Bool.true_xor]
    rfl

def Bitwise (f : Bool → Bool → Bool) (x y r : BigInt p) : Prop :=
  Canonical r ∧ ∀ k, r.toInt.testBit k = f (x.toInt.testBit k) (y.toInt.testBit k)

theorem Bitwise.of_is (hx : Canonical x)
    (hy : Canonical y) (hm : Ensures m (Is b (if b then n + 1 else n))) (h : ∀ k, (b ^^ n.testBit k)
      = f (x.isNegative ^^ (rawBits x).testBit k) (y.isNegative ^^ (rawBits y).testBit k))
    : Ensures m (Bitwise f x y) := by
  apply Ensures.mono hm
  intro r ⟨hr, hint⟩
  refine ⟨hr, ?_⟩
  intro k
  rw [testBit_toInt hx, testBit_toInt hy, ← h, hint]
  cases b with
  | false => exact (Bool.false_xor _).symm
  | true => exact (Bool.true_xor _).symm

theorem absoluteSubOne_of_neg (hx : Canonical x) (hneg : x.isNegative = true)
    : Ensures (absoluteSubOne x false) (Is false (x.abs - 1)) := by
  apply absoluteSubOne_ensures hx
  intro hlen
  rw [hx.zero_nonneg hlen] at hneg
  contradiction

theorem absoluteAnd_ensures (x y : BigInt p) : Ensures (absoluteAnd x y) (Is false (x.abs &&& y.abs)) :=
  absoluteBitwiseOp_ensures (f := and) (by intro b; cases b <;> decide) (fun _ _ _ _ => getLsbD_and) x y

theorem absoluteOr_ensures (x y : BigInt p) : Ensures (absoluteOr x y) (Is false (x.abs ||| y.abs)) :=
  absoluteBitwiseOp_ensures (f := or) (by intro b; cases b <;> decide) (fun _ _ _ _ => getLsbD_or) x y

theorem absoluteXor_ensures (x y : BigInt p) : Ensures (absoluteXor x y) (Is false (x.abs ^^^ y.abs)) :=
  absoluteBitwiseOp_ensures (f := bne) (by intro b; cases b <;> decide) (fun _ _ _ _ => getLsbD_xor) x y

theorem absoluteAndNot_ensures (x y : BigInt p)
    : Ensures (absoluteAndNot x y) (Is false (Nat.bitwise (fun a b => a && !b) x.abs y.abs)) := by
  apply absoluteBitwiseOp_ensures
  . intro b
    cases b <;> decide
  . intro a b j hj
    rw [getLsbD_and, getLsbD_not, decide_eq_true hj, Bool.true_and]

theorem testBit_of_isZero (hzero : x.isZero = true) (k : Nat) : x.toInt.testBit k = false := by
  rw [toInt_of_length_zero (eq_of_beq hzero)]
  exact Nat.zero_testBit k

theorem bitAnd_ensures (hx : Canonical x) (hy : Canonical y) : Ensures (bitAnd x y) (Bitwise and x y) := by
  unfold bitAnd
  apply Ensures.ite
  . intro hzero
    apply Ensures.pure
    refine ⟨hx, fun k => ?_⟩
    rw [testBit_of_isZero hzero, Bool.false_and]
  intro _
  apply Ensures.ite
  . intro hzero
    apply Ensures.pure
    refine ⟨hy, fun k => ?_⟩
    rw [testBit_of_isZero hzero, Bool.and_false]
  intro _
  cases hxn : x.isNegative <;> cases hyn : y.isNegative
  . apply Bitwise.of_is (b := false) hx hy (absoluteAnd_ensures x y)
    simp [rawBits, hxn, hyn]
  . refine Ensures.bind (absoluteSubOne_of_neg hy hyn) fun y1 hy1 => ?_
    apply Bitwise.of_is (b := false) hx hy (absoluteAndNot_ensures x y1)
    simp [rawBits, hxn, hyn, hy1.abs_eq, Nat.testBit_bitwise]
  . refine Ensures.bind (absoluteSubOne_of_neg hx hxn) fun x1 hx1 => ?_
    apply Bitwise.of_is (b := false) hx hy (absoluteAndNot_ensures y x1)
    simp [rawBits, hxn, hyn, hx1.abs_eq, Nat.testBit_bitwise, Bool.and_comm]
  . refine Ensures.bind (absoluteSubOne_of_neg hx hxn) fun x1 hx1 => ?_
    refine Ensures.bind (absoluteSubOne_of_neg hy hyn) fun y1 hy1 => ?_
    refine Ensures.bind (absoluteOr_ensures x1 y1) fun r hr => ?_
    apply Bitwise.of_is (b := true) hx hy (absoluteAddOne_ensures r true)
    simp [rawBits, hxn, hyn, hr.abs_eq, hx1.abs_eq, hy1.abs_eq]

theorem bitXor_ensures (hx : Canonical x) (hy : Canonical y) : Ensures (bitXor x y) (Bitwise xor x y) := by
  unfold bitXor
  apply Ensures.ite
  . intro hzero
    apply Ensures.pure
    refine ⟨hy, fun k => ?_⟩
    rw [testBit_of_isZero hzero, Bool.false_xor]
  intro _
  apply Ensures.ite
  . intro hzero
    apply Ensures.pure
    refine ⟨hx, fun k => ?_⟩
    rw [testBit_of_isZero hzero, Bool.xor_false]
  intro _
  cases hxn : x.isNegative <;> cases hyn : y.isNegative
  . apply Bitwise.of_is (b := false) hx hy (absoluteXor_ensures x y)
    simp [rawBits, hxn, hyn]
  . refine Ensures.bind (absoluteSubOne_of_neg hy hyn) fun y1 hy1 => ?_
    refine Ensures.bind (absoluteXor_ensures y1 x) fun r hr => ?_
    apply Bitwise.of_is (b := true) hx hy (absoluteAddOne_ensures r true)
    simp [rawBits, hxn, hyn, hr.abs_eq, hy1.abs_eq, Bool.xor_comm]
  . refine Ensures.bind (absoluteSubOne_of_neg hx hxn) fun x1 hx1 => ?_
    refine Ensures.bind (absoluteXor_ensures x1 y) fun r hr => ?_
    apply Bitwise.of_is (b := true) hx hy (absoluteAddOne_ensures r true)
    simp [rawBits, hxn, hyn, hr.abs_eq, hx1.abs_eq]
  . refine Ensures.bind (absoluteSubOne_of_neg hx hxn) fun x1 hx1 => ?_
    refine Ensures.bind (absoluteSubOne_of_neg hy hyn) fun y1 hy1 => ?_
    apply Bitwise.of_is (b := false) hx hy (absoluteXor_ensures x1 y1)
    simp [rawBits, hxn, hyn, hx1.abs_eq, hy1.abs_eq]

theorem bitOr_ensures (hx : Canonical x) (hy : Canonical y) : Ensures (bitOr x y) (Bitwise or x y) := by
  unfold bitOr
  apply Ensures.ite
  . intro hzero
    apply Ensures.pure
    refine ⟨hy, fun k => ?_⟩
    rw [testBit_of_isZero hzero, Bool.false_or]
  intro _
  apply Ensures.ite
  . intro hzero
    apply Ensures.pure
    refine ⟨hx, fun k => ?_⟩
    rw [testBit_of_isZero hzero, Bool.or_false]
  intro _
  cases hxn : x.isNegative <;> cases hyn : y.isNegative
  . apply Bitwise.of_is (b := false) hx hy (absoluteOr_ensures x y)
    simp [rawBits, hxn, hyn]
  . refine Ensures.bind (absoluteSubOne_of_neg hy hyn) fun y1 hy1 => ?_
    refine Ensures.bind (absoluteAndNot_ensures y1 x) fun r hr => ?_
    apply Bitwise.of_is (b := true) hx hy (absoluteAddOne_ensures r true)
    simp [rawBits, hxn, hyn, hr.abs_eq, hy1.abs_eq, Nat.testBit_bitwise, Bool.or_comm]
  . refine Ensures.bind (absoluteSubOne_of_neg hx hxn) fun x1 hx1 => ?_
    refine Ensures.bind (absoluteAndNot_ensures x1 y) fun r hr => ?_
    apply Bitwise.of_is (b := true) hx hy (absoluteAddOne_ensures r true)
    simp [rawBits, hxn, hyn, hr.abs_eq, hx1.abs_eq, Nat.testBit_bitwise]
  . refine Ensures.bind (absoluteSubOne_of_neg hx hxn) fun x1 hx1 => ?_
    refine Ensures.bind (absoluteSubOne_of_neg hy hyn) fun y1 hy1 => ?_
    refine Ensures.bind (absoluteAnd_ensures x1 y1) fun r hr => ?_
    apply Bitwise.of_is (b := true) hx hy (absoluteAddOne_ensures r true)
    simp [rawBits, hxn, hyn, hr.abs_eq, hx1.abs_eq, hy1.abs_eq]

theorem bitNot_ensures (hx : Canonical x) : Ensures (bitNot x) (Bitwise (fun a _ => !a) x x) := by
  unfold bitNot
  apply Ensures.ite
  . intro hxn
    apply Bitwise.of_is (b := false) hx hx (absoluteSubOne_of_neg hx hxn)
    simp [rawBits, hxn]
  intro hxn
  rw [Bool.not_eq_true] at hxn
  apply Bitwise.of_is (b := true) hx hx (absoluteAddOne_ensures x true)
  simp [rawBits, hxn]

end Operators

theorem bitwise_twosComplement {x y : BigInt p} (hx : Canonical x) (hy : Canonical y)
    : Ensures (bitAnd x y) (Bitwise and x y) ∧ Ensures (bitOr x y) (Bitwise or x y) ∧
      Ensures (bitXor x y) (Bitwise xor x y) ∧
      Ensures (bitNot x) (fun r => Canonical r ∧ ∀ k, r.toInt.testBit k = !x.toInt.testBit k) :=
  ⟨bitAnd_ensures hx hy, bitOr_ensures hx hy, bitXor_ensures hx hy, bitNot_ensures hx⟩

theorem bitwise_twosComplement_threeDigits
    : Ensures (bitAnd threeNegativeDigits twoDigits) (Bitwise and threeNegativeDigits twoDigits)
      ∧ Ensures (bitXor threeNegativeDigits twoDigits) (Bitwise xor threeNegativeDigits twoDigits)
      ∧ Ensures (bitNot threeNegativeDigits)
        (fun r => Canonical r ∧ ∀ k, r.toInt.testBit k = !threeNegativeDigits.toInt.testBit k) := by
  have hbits := bitwise_twosComplement threeNegativeDigits_canonical twoDigits_canonical
  exact ⟨hbits.1, hbits.2.2.1, hbits.2.2.2⟩

end SpiderMonkey.BigInt
