import SpiderMonkey.BigInt.Impl.Double
import SpiderMonkey.BigInt.Shift
import SpiderMonkey.Numbers.Conversions

/-!
This module contains that the comparison of `BigInt` values with doubles is exact: the high 64 bits and what is left of
them, the value of a double, and the theorem.
-/

namespace SpiderMonkey.BigInt

open BitVec FloatingPoint Binary64 Conversions

variable {p : Platform} {x : BigInt p} {y : BitVec 64}

section

variable {f n L : Nat} {H : BitVec 64}

-- `H` holds the high `f` of the `L` bits of `x`, what is left of `x` is in the `n` lowest digits.
structure Filled (x : BigInt p) (L f n : Nat) (H : BitVec 64) : Prop where
  le : f ≤ 64
  length : f + n * digitBits p = L
  dvd : 2 ^ (64 - f) ∣ H.toNat
  value : x.abs * 2 ^ 64 = H.toNat * 2 ^ L + x.sliceValue 0 n * 2 ^ 64

theorem toNat_or_of_dvd (hdvd : 2 ^ t ∣ H.toNat) (he : e.toNat < 2 ^ t)
    : (H ||| e).toNat = H.toNat + e.toNat := by
  obtain ⟨h, hh⟩ := hdvd
  rw [toNat_or, hh, Nat.two_pow_add_eq_or_of_lt he]

theorem digitBits_le : digitBits p ≤ 64 := by
  unfold digitBits
  split <;> decide

theorem toNat_setWidth_digit (d : Digit p) : (d.setWidth 64).toNat = d.toNat :=
  toNat_setWidth_of_le digitBits_le

theorem toNat_setWidth_shiftLeft {d : Digit p} (hd : d.toNat < 2 ^ t) (hs : t + s ≤ 64)
    : (d.setWidth 64 <<< s).toNat = d.toNat * 2 ^ s := by
  rw [toNat_shiftLeft, toNat_setWidth_digit, Nat.shiftLeft_eq]
  apply Nat.mod_eq_of_lt
  calc d.toNat * 2 ^ s < 2 ^ t * 2 ^ s := Nat.mul_lt_mul_of_pos_right hd (Nat.two_pow_pos s)
    _ = 2 ^ (t + s) := (Nat.pow_add 2 t s).symm
    _ ≤ 2 ^ 64 := Nat.pow_le_pow_right (by decide) hs

theorem base_pow_mul (n m : Nat) : base p ^ n * 2 ^ m = 2 ^ (n * digitBits p + m) := by
  rw [base, ← Nat.pow_mul, Nat.mul_comm n, ← Nat.pow_add]

theorem filled_next {w : Nat} (hlength : f + w + n * digitBits p = L) (hdvd : 2 ^ (64 - f) ∣ H.toNat)
    (hvalue : x.abs * 2 ^ 64 = H.toNat * 2 ^ L + x.sliceValue 0 (n + 1) * 2 ^ 64) (hd : (x.digit n).toNat < 2 ^ w)
    (hle : f + w ≤ 64) : Filled x L (f + w) n (H ||| (x.digit n).setWidth 64 <<< (64 - (f + w))) := by
  have hshift := toNat_setWidth_shiftLeft hd (s := 64 - (f + w)) (by omega)
  have hor : (H ||| (x.digit n).setWidth 64 <<< (64 - (f + w))).toNat
      = H.toNat + (x.digit n).toNat * 2 ^ (64 - (f + w)) := by
    rw [← hshift]
    apply toNat_or_of_dvd hdvd
    rw [hshift]
    calc (x.digit n).toNat * 2 ^ (64 - (f + w)) < 2 ^ w * 2 ^ (64 - (f + w)) :=
          Nat.mul_lt_mul_of_pos_right hd (Nat.two_pow_pos _)
      _ = 2 ^ (64 - f) := by
        rw [← Nat.pow_add]
        congr 1
        omega
  refine ⟨hle, hlength, ?_, ?_⟩
  . rw [hor]
    apply Nat.dvd_add ((Nat.pow_dvd_pow 2 (by omega)).trans hdvd) (Nat.dvd_mul_left ..)
  have hexp : 64 - (f + w) + L = n * digitBits p + 64 := by omega
  rw [hvalue, hor, sliceValue_succ, Nat.zero_add, Nat.add_mul, Nat.add_mul, Nat.mul_assoc _ (base p ^ n),
    base_pow_mul, Nat.mul_assoc _ (2 ^ (64 - (f + w))), ← Nat.pow_add, hexp]
  omega

theorem Filled.next (h : Filled x L f (n + 1) H) (hle : f + digitBits p ≤ 64)
    : Filled x L (f + digitBits p) n (H ||| (x.digit n).setWidth 64 <<< (64 - (f + digitBits p))) := by
  apply filled_next _ h.dvd h.value (x.digit n).isLt hle
  rw [← h.length, Nat.succ_mul]
  omega

-- What `high64Bits` returns for an `x` of `L` bits.
def IsHigh (x : BigInt p) (L : Nat) (high : BitVec 64 × Bool × Nat) : Prop :=
  ∃ r, r < 2 ^ L ∧ x.abs * 2 ^ 64 = high.1.toNat * 2 ^ L + r
    ∧ (r = 0 ↔ high.2.1 = false ∧ x.sliceValue 0 high.2.2 = 0)

theorem Filled.isHigh (h : Filled x L f n H) (hend : f = 64 ∨ n = 0) : IsHigh x L (H, false, n) := by
  refine ⟨_, ?_, h.value, by simp⟩
  rcases hend with rfl | rfl
  . rw [← h.length, Nat.add_comm, ← base_pow_mul]
    exact Nat.mul_lt_mul_of_pos_right (sliceValue_lt x 0 n) (Nat.two_pow_pos 64)
  . rw [sliceValue_zero, Nat.zero_mul]
    exact Nat.two_pow_pos L

theorem Filled.isHigh_last (h : Filled x L f (n + 1) H) (hpos : 0 < f) (hgt : 64 < f + digitBits p)
    : IsHigh x L (H ||| (x.digit n).setWidth 64 >>> (digitBits p - (64 - f)), x.digit n <<< (64 - f) ≠ 0, n) := by
  have hle := h.le
  have hbits := digitBits_le (p := p)
  obtain ⟨s, hs⟩ : ∃ s, digitBits p = 64 - f + s := ⟨digitBits p - (64 - f), by omega⟩
  have hsub : digitBits p - (64 - f) = s := by omega
  have hpow : 2 ^ digitBits p = 2 ^ (64 - f) * 2 ^ s := by rw [← Nat.pow_add, ← hs]
  have hd : (x.digit n).toNat < 2 ^ (64 - f) * 2 ^ s := hpow ▸ (x.digit n).isLt
  have hright : ((x.digit n).setWidth 64 >>> (digitBits p - (64 - f))).toNat = (x.digit n).toNat / 2 ^ s := by
    rw [toNat_ushiftRight, toNat_setWidth_digit, Nat.shiftRight_eq_div_pow, hsub]
  have hleft : x.digit n <<< (64 - f) ≠ 0 ↔ (x.digit n).toNat % 2 ^ s ≠ 0 := by
    rw [ne_eq, toNat_eq, toNat_shiftLeft, Nat.shiftLeft_eq, toNat_zero, hpow, Nat.mul_comm,
      Nat.mul_mod_mul_left, Nat.mul_eq_zero]
    have := Nat.two_pow_pos (64 - f)
    omega
  have hlow : (x.digit n).toNat % 2 ^ s * base p ^ n + x.sliceValue 0 n < 2 ^ s * base p ^ n := by
    have hmod := Nat.mul_le_mul_right (base p ^ n) (Nat.succ_le_of_lt (Nat.mod_lt (x.digit n).toNat (Nat.two_pow_pos s)))
    have hlt := sliceValue_lt x 0 n
    rw [Nat.succ_mul] at hmod
    omega
  have hlength := h.length
  rw [Nat.succ_mul] at hlength
  have hexp : 2 ^ L = 2 ^ s * base p ^ n * 2 ^ 64 := by
    rw [Nat.mul_assoc, base_pow_mul, ← Nat.pow_add]
    congr 1
    omega
  refine ⟨((x.digit n).toNat % 2 ^ s * base p ^ n + x.sliceValue 0 n) * 2 ^ 64, ?_, ?_, ?_⟩
  . rw [hexp]
    exact Nat.mul_lt_mul_of_pos_right hlow (Nat.two_pow_pos 64)
  . rw [h.value, toNat_or_of_dvd h.dvd (hright ▸ Nat.div_lt_of_lt_mul (Nat.mul_comm .. ▸ hd)), hright, sliceValue_succ,
      Nat.zero_add, hexp]
    conv_lhs => rw [← Nat.div_add_mod (x.digit n).toNat (2 ^ s)]
    ring
  . have hbase := Nat.pow_pos (n := n) (base_pos (p := p))
    simp only [Nat.mul_eq_zero, Nat.add_eq_zero_iff, decide_eq_false_iff_not, hleft]
    omega

end

def bitLength (x : BigInt p) : Nat := x.digitLength * digitBits p - digitLeadingZeroes (x.digit (x.digitLength - 1))

theorem filled_msd (hlen : x.digitLength ≠ 0)
    : Filled x (bitLength x) (digitBits p - digitLeadingZeroes (x.digit (x.digitLength - 1))) (x.digitLength - 1)
        ((x.digit (x.digitLength - 1)).setWidth 64
          <<< (64 - (digitBits p - digitLeadingZeroes (x.digit (x.digitLength - 1))))) := by
  obtain ⟨n, hn⟩ := Nat.exists_eq_succ_of_ne_zero hlen
  have hbits := digitBits_le (p := p)
  have hle := digitLeadingZeroes_le (x.digit n)
  have hfilled := filled_next (x := x) (n := n) (f := 0) (L := bitLength x) (H := 0#64)
    (w := digitBits p - digitLeadingZeroes (x.digit n)) ?_ (Nat.dvd_zero _) ?_ toNat_lt_two_pow_sub_clz (by omega)
  . rw [Nat.zero_add, BitVec.zero_or] at hfilled
    rw [hn]
    exact hfilled
  . rw [bitLength, hn, Nat.succ_mul, Nat.succ_sub_one]
    omega
  . rw [abs, hn]
    exact (Nat.zero_add _).symm.trans (congrArg (· + _) (Nat.zero_mul _).symm)

theorem bitLength_le (hx : Canonical x) (hlen : x.digitLength ≠ 0) : 2 ^ bitLength x ≤ 2 * x.abs := by
  obtain ⟨n, hn⟩ := Nat.exists_eq_succ_of_ne_zero hlen
  have hmsd := base_le_normalize (hx.msd_ne_zero hlen)
  rw [toNat_normalize] at hmsd
  have hle := digitLeadingZeroes_le (x.digit (x.digitLength - 1))
  unfold bitLength abs
  rw [hn, Nat.succ_sub_one] at hmsd hle ⊢
  generalize hs : digitLeadingZeroes (x.digit n) = s at hmsd hle ⊢
  apply Nat.le_of_mul_le_mul_right _ (Nat.two_pow_pos s)
  calc 2 ^ (n.succ * digitBits p - s) * 2 ^ s = base p * base p ^ n := by
        rw [← Nat.pow_add, base, ← Nat.pow_succ', ← Nat.pow_mul, Nat.mul_comm n.succ, Nat.sub_add_cancel]
        exact hle.trans (Nat.le_mul_of_pos_right _ n.succ_pos)
    _ ≤ 2 * ((x.digit n).toNat * 2 ^ s) * base p ^ n := Nat.mul_le_mul_right _ hmsd
    _ = 2 * ((x.digit n).toNat * base p ^ n) * 2 ^ s := by ring
    _ ≤ 2 * x.sliceValue 0 n.succ * 2 ^ s := by
      rw [sliceValue_succ, Nat.zero_add]
      apply Nat.mul_le_mul_right
      omega

theorem high64Bits_isHigh (hx : Canonical x) (hlen : x.digitLength ≠ 0) : IsHigh x (bitLength x) (high64Bits x) := by
  obtain ⟨n, hn⟩ := Nat.exists_eq_succ_of_ne_zero hlen
  have hfilled := filled_msd hlen
  have hpos := Nat.sub_pos_of_lt (digitLeadingZeroes_lt (hx.msd_ne_zero hlen))
  have hlength := hfilled.length
  unfold high64Bits
  dsimp only
  unfold bitLength at hlength
  rw [hn, Nat.succ_sub_one] at hfilled hpos hlength ⊢
  rw [← hlength]
  have hbits := two_le_digitBits (p := p)
  have hdigit := Nat.sub_le (digitBits p) (digitLeadingZeroes (x.digit n))
  generalize digitBits p - digitLeadingZeroes (x.digit n) = f at hfilled hpos hdigit ⊢
  have hle := hfilled.le
  split
  next hlt =>
    cases n with
    | zero => omega
    | succ n =>
      have hdigitBits : digitBits p = 32 ∨ digitBits p = 64 := by
        unfold digitBits
        split <;> decide
      rw [Nat.succ_sub_one]
      split
      next hbits =>
        have hnext := hfilled.next (by omega)
        simp only [hbits] at hnext ⊢
        split
        next hlt =>
          obtain ⟨m, rfl⟩ := Nat.exists_eq_succ_of_ne_zero (Nat.ne_zero_of_lt hlt.2)
          have hlast := hnext.isHigh_last (by omega) (by omega)
          simp only [hbits] at hlast
          exact hlast
        next hge => exact hnext.isHigh (by omega)
      next hbits => exact hfilled.isHigh_last hpos (by omega)
  next hge =>
    apply hfilled.isHigh
    rcases n with _ | n
    . omega
    left
    rw [Nat.succ_mul] at hge
    omega

section

-- The number that a double stands for, unless it is a NaN.
def number (y : BitVec 64) : Option (WithBot (WithTop ℚ)) :=
  match Binary64.value y with
  | some q => some ((q : WithTop ℚ) : WithBot (WithTop ℚ))
  | none => if fraction y = 0 then some (if negative y then ⊥ else ⊤) else none

inductive IsComparison {α : Type} [LT α] (a b : α) : Int → Prop where
  | less : a < b → IsComparison a b (-1)
  | equal : a = b → IsComparison a b 0
  | greater : b < a → IsComparison a b 1

variable {b : Bool} {X : Nat} {q : ℚ}

theorem IsComparison.signed (h : IsComparison (X : ℚ) q c) (b : Bool)
    : IsComparison ((signed b X : ℤ) : ℚ) (if b then -q else q) (if b then -c else c) := by
  cases b with
  | false => exact h
  | true =>
    have hcast : ((BigInt.signed true X : ℤ) : ℚ) = -(X : ℚ) := by simp [BigInt.signed]
    rw [hcast]
    cases h with
    | less h => exact .greater (neg_lt_neg h)
    | equal h => exact .equal (congrArg _ h)
    | greater h => exact .less (neg_lt_neg h)

theorem IsComparison.unscale {M : Nat} (h : IsComparison (X * 2 ^ 64) M c) (hq : q * 2 ^ 64 = M)
    : IsComparison (X : ℚ) q c := by
  cases h with
  | less h =>
    have h : (X : ℚ) * 2 ^ 64 < M := by exact_mod_cast h
    exact .less (by linarith)
  | equal h =>
    have h : (X : ℚ) * 2 ^ 64 = M := by exact_mod_cast h
    exact .equal (by linarith)
  | greater h =>
    have h : (M : ℚ) < X * 2 ^ 64 := by exact_mod_cast h
    exact .greater (by linarith)

theorem isFinite_iff (y : BitVec 64) : IsFinite y = true ↔ biasedExponent y ≠ 2047 := by
  unfold IsFinite
  rw [decide_eq_true_iff, ne_eq, not_iff_not, ← exponentField_eq]
  constructor
  . intro h
    rw [h]
    rfl
  intro h
  have hshift : (y &&& kExponentBits) >>> kExponentShift = 2047#64 := eq_of_toNat_eq h
  calc y &&& kExponentBits = (y &&& kExponentBits) &&& allOnes 64 <<< kExponentShift := by
        rw [BitVec.and_assoc]
        rfl
    _ = kExponentBits := by
      rw [← shiftLeft_ushiftRight, hshift]
      rfl

theorem exponentComponent_eq (y : BitVec 64) : ExponentComponent y = biasedExponent y - 1023 := by
  rw [ExponentComponent, exponentField_eq]
  rfl

theorem eqZero_iff (y : BitVec 64) : eqZero y = true ↔ biasedExponent y = 0 ∧ fraction y = 0 := by
  unfold eqZero
  rw [decide_eq_true_iff]
  constructor
  . rintro (rfl | rfl) <;> decide
  intro ⟨hexponent, hfraction⟩
  have hlt := y.isLt
  unfold biasedExponent fraction at *
  have hzero : (0 : BitVec 64).toNat = 0 := rfl
  have hsign : kSignBit.toNat = 2 ^ 63 := by decide
  rw [toNat_eq, toNat_eq, hzero, hsign]
  omega

theorem ltZero_eq (h : eqZero y = false) : ltZero y = negative y := by
  rw [Bool.eq_iff_iff, ltZero, ← sign_iff, decide_eq_true_iff, h]
  simp

theorem gtZero_eq (h : eqZero y = false) : gtZero y = !negative y := by
  rw [← ltZero_eq h, gtZero, ltZero, h]
  simp

theorem magnitude_pos (hfinite : biasedExponent y ≠ 2047) (hzero : eqZero y = false)
    : ∃ q, magnitude y = some q ∧ 0 < q := by
  unfold magnitude
  rw [if_neg (by omega)]
  split
  next h =>
    have hpos : 0 < fraction y := by
      apply Nat.pos_of_ne_zero
      intro hfraction
      rw [(eqZero_iff y).mpr ⟨h, hfraction⟩] at hzero
      contradiction
    exact ⟨_, rfl, by positivity⟩
  next => exact ⟨_, rfl, by positivity⟩

theorem yHigh64Bits_toNat (y : BitVec 64)
    : (((1 : BitVec 64) <<< kSignificandWidth ||| y &&& kSignificandBits) <<< (64 - kSignificandWidth - 1)).toNat
        = (2 ^ 52 + fraction y) * 2 ^ 11 := by
  have hfraction : (y &&& kSignificandBits).toNat = fraction y := by
    rw [toNat_and]
    exact Nat.and_two_pow_sub_one_eq_mod _ 52
  have hlt := fraction_lt y
  have hor : ((1 : BitVec 64) <<< kSignificandWidth ||| y &&& kSignificandBits).toNat = 2 ^ 52 + fraction y := by
    rw [toNat_or_of_dvd (t := 52) (by decide) (hfraction ▸ hlt), hfraction]
    rfl
  rw [toNat_shiftLeft, hor, Nat.shiftLeft_eq]
  apply Nat.mod_eq_of_lt
  have hshift : 64 - kSignificandWidth - 1 = 11 := rfl
  rw [hshift]
  omega

theorem anyNonZeroDigit_iff (x : BigInt p) (n : Nat) : anyNonZeroDigit x n = false ↔ x.sliceValue 0 n = 0 := by
  induction n with
  | zero => simp [anyNonZeroDigit]
  | succ n ih =>
    have hpow := Nat.pow_pos (n := n) (base_pos (p := p))
    rw [anyNonZeroDigit, Bool.or_eq_false_iff, ih, sliceValue_succ, Nat.add_eq_zero_iff, Nat.mul_eq_zero, Nat.zero_add,
      decide_eq_false_iff_not, Decidable.not_not, toNat_eq, toNat_zero, or_iff_left hpow.ne']
    exact And.comm

theorem IsComparison.coe (h : IsComparison q r c)
    : IsComparison ((q : WithTop ℚ) : WithBot (WithTop ℚ)) ((r : WithTop ℚ) : WithBot (WithTop ℚ)) c := by
  cases h with
  | less h => exact .less (by exact_mod_cast h)
  | equal h => exact .equal (by rw [h])
  | greater h => exact .greater (by exact_mod_cast h)

theorem number_of_magnitude (hq : magnitude y = some q)
    : number y = some (((if negative y then -q else q : ℚ) : WithTop ℚ) : WithBot (WithTop ℚ)) := by
  rw [number, Binary64.value, hq]
  rfl

theorem compare_infinite (x : BigInt p) (hv : number y = some v) (h : biasedExponent y = 2047)
    : IsComparison (((x.toInt : ℚ) : WithTop ℚ) : WithBot (WithTop ℚ)) v (compare x y) := by
  have hnone : Binary64.value y = none := by
    rw [Binary64.value, magnitude, h]
    rfl
  have hfinite : IsFinite y = false := by
    rw [Bool.eq_false_iff, ne_eq, isFinite_iff, h]
    omega
  have hzero : eqZero y = false := by
    rw [Bool.eq_false_iff, ne_eq, eqZero_iff, h]
    omega
  unfold number at hv
  rw [hnone] at hv
  dsimp only at hv
  split at hv
  . obtain rfl := Option.some.inj hv
    rw [compare, hfinite, gtZero_eq hzero]
    cases negative y with
    | false => exact .less (WithBot.coe_lt_coe.mpr (WithTop.coe_lt_top _))
    | true => exact .greater (WithBot.bot_lt_coe _)
  . contradiction

-- Whether a magnitude of at least `2 ^ 63` with `e + 1` bits is the smaller or the greater is seen from the high 64 bits.
theorem compare_high (hx : Canonical x) (hlen : x.digitLength ≠ 0) {N : BitVec 64} {e : Nat} (hN : 2 ^ 63 ≤ N.toNat)
    (hq : q * 2 ^ 64 = (N.toNat * 2 ^ (e + 1) : Nat)) (b : Bool)
    : IsComparison ((signed b x.abs : ℤ) : ℚ) (if b then -q else q)
        (if (bitLength x : ℤ) < e + 1 then if b then 1 else -1
        else if (bitLength x : ℤ) > e + 1 then if b then -1 else 1 else if N > (high64Bits x).1 then if b then 1 else -1
        else if (high64Bits x).1 > N then if b then -1 else 1 else if (high64Bits x).2.1 then if b then -1 else 1
        else if anyNonZeroDigit x (high64Bits x).2.2 then if b then -1 else 1 else 0) := by
  obtain ⟨r, hr, hvalue, hzero⟩ := high64Bits_isHigh hx hlen
  have hle := bitLength_le hx hlen
  generalize high64Bits x = high at hvalue hzero ⊢
  obtain ⟨H, left, n⟩ := high
  dsimp only at hvalue hzero ⊢
  have hH := H.isLt
  have hless (h : x.abs * 2 ^ 64 < N.toNat * 2 ^ (e + 1)) := ((IsComparison.less h).unscale hq).signed b
  have hgreater (h : N.toNat * 2 ^ (e + 1) < x.abs * 2 ^ 64) := ((IsComparison.greater h).unscale hq).signed b
  have hequal (h : x.abs * 2 ^ 64 = N.toNat * 2 ^ (e + 1)) := ((IsComparison.equal h).unscale hq).signed b
  rw [Int.neg_zero, ite_self] at hequal
  generalize (if b then -q else q) = v at hless hgreater hequal ⊢
  split
  next hlt =>
    apply hless
    calc x.abs * 2 ^ 64 < (H.toNat + 1) * 2 ^ bitLength x := by
          rw [hvalue, Nat.succ_mul]
          exact Nat.add_lt_add_left hr _
      _ ≤ 2 ^ 64 * 2 ^ e := Nat.mul_le_mul hH (Nat.pow_le_pow_right (by decide) (by omega))
      _ = 2 ^ 63 * 2 ^ (e + 1) := by rw [← Nat.pow_add, ← Nat.pow_add, Nat.add_comm e, ← Nat.add_assoc]
      _ ≤ N.toNat * 2 ^ (e + 1) := Nat.mul_le_mul_right _ hN
  next hnlt =>
    split
    next hgt =>
      apply hgreater
      calc N.toNat * 2 ^ (e + 1) < 2 ^ 64 * 2 ^ (e + 1) := Nat.mul_lt_mul_of_pos_right N.isLt (Nat.two_pow_pos _)
        _ ≤ x.abs * 2 ^ 64 := by
          rw [Nat.mul_comm]
          apply Nat.mul_le_mul_right
          have hpow : 2 ^ (e + 2) ≤ 2 ^ bitLength x := Nat.pow_le_pow_right (by decide) (by omega)
          rw [Nat.pow_succ] at hpow
          omega
    next hngt =>
      have heq : bitLength x = e + 1 := by omega
      rw [heq] at hr hvalue
      split
      next h =>
        have hmul := Nat.mul_le_mul_right (2 ^ (e + 1)) (show H.toNat + 1 ≤ N.toNat from h)
        rw [Nat.succ_mul] at hmul
        exact hless (by omega)
      next hNH =>
        split
        next h =>
          have hmul := Nat.mul_le_mul_right (2 ^ (e + 1)) (show N.toNat + 1 ≤ H.toNat from h)
          rw [Nat.succ_mul] at hmul
          exact hgreater (by omega)
        next hHN =>
          have heq : H = N := BitVec.le_antisymm (BitVec.not_lt.mp hHN) (BitVec.not_lt.mp hNH)
          rw [heq] at hvalue
          rw [← anyNonZeroDigit_iff] at hzero
          by_cases hr0 : r = 0
          . rw [(hzero.mp hr0).1, (hzero.mp hr0).2]
            exact hequal (by omega)
          have hrest := hgreater (by omega)
          split
          . exact hrest
          next hleft =>
            rw [if_pos]
            . exact hrest
            . by_contra hany
              exact hr0 (hzero.mpr ⟨Bool.not_eq_true _ ▸ hleft, Bool.not_eq_true _ ▸ hany⟩)

theorem scaled_eq (m e : Nat) : (m : ℚ) * 2 ^ ((e : ℤ) - 52) * 2 ^ 64 = (m * 2 ^ 11 * 2 ^ (e + 1) : Nat) := by
  have hpow : (2 : ℚ) ^ (52 : ℤ) = 2 ^ 52 := rfl
  rw [zpow_sub₀ two_ne_zero, zpow_natCast, hpow]
  push_cast
  ring

theorem compare_finite (hx : Canonical x) (hfinite : biasedExponent y ≠ 2047)
    : ∃ q, magnitude y = some q ∧ IsComparison (x.toInt : ℚ) (if negative y then -q else q) (compare x y) := by
  have htoInt : x.toInt = signed x.isNegative x.abs := rfl
  have hiff : x.isZero = true ↔ x.abs = 0 := by rw [hx.abs_eq_zero_iff, isZero, beq_iff_eq]
  unfold compare
  rw [if_neg (by rw [Bool.not_eq_true', Bool.not_eq_false, isFinite_iff]; exact hfinite), htoInt]
  by_cases hzero : eqZero y = true
  . obtain ⟨hexponent, hfraction⟩ := (eqZero_iff y).mp hzero
    refine ⟨0, by rw [magnitude, hexponent, hfraction]; norm_num, ?_⟩
    have hv : (if negative y then -0 else 0 : ℚ) = 0 := by simp
    rw [hv, hzero]
    by_cases habs : x.abs = 0
    . rw [if_pos (hiff.mpr habs), habs]
      apply IsComparison.equal
      cases x.isNegative <;> rfl
    rw [if_neg (mt hiff.mp habs)]
    have hpos : (0 : ℚ) < x.abs := by exact_mod_cast Nat.pos_of_ne_zero habs
    have hsigned := (IsComparison.greater hpos).signed x.isNegative
    rw [show -(0 : ℚ) = 0 from rfl, ite_self] at hsigned
    exact hsigned
  rw [Bool.not_eq_true] at hzero
  obtain ⟨q, hq, hpos⟩ := magnitude_pos hfinite hzero
  refine ⟨q, hq, ?_⟩
  rw [hzero, gtZero_eq hzero, ltZero_eq hzero, if_neg Bool.false_ne_true]
  by_cases habs : x.abs = 0
  . have hneg : x.isNegative = false := hx.zero_nonneg (hx.abs_eq_zero_iff.mp habs)
    rw [if_pos (hiff.mpr habs), habs, hneg]
    cases negative y with
    | false => exact .less hpos
    | true => exact .greater (neg_lt_zero.mpr hpos)
  have hlen := mt hx.abs_eq_zero_iff.mpr habs
  have hone : (1 : ℚ) ≤ x.abs := by exact_mod_cast Nat.pos_of_ne_zero habs
  rw [if_neg (mt hiff.mp habs)]
  dsimp only
  rw [if_neg Bool.false_ne_true]
  by_cases hsign : x.isNegative = negative y
  . rw [if_neg (not_not_intro hsign), ← hsign]
    by_cases hlt : biasedExponent y < 1023
    . rw [if_pos (show ExponentComponent y < 0 by rw [exponentComponent_eq]; omega)]
      exact (IsComparison.greater ((magnitude_lt_one hlt hq).2.trans_le hone)).signed _
    have he : ExponentComponent y = (biasedExponent y - 1023 : Nat) := by
      rw [exponentComponent_eq]
      omega
    rw [magnitude_of_le (by omega) hfinite] at hq
    generalize biasedExponent y - 1023 = e at he hq
    rw [he, if_neg (show ¬(e : ℤ) < 0 by omega)]
    apply compare_high hx hlen
    . rw [yHigh64Bits_toNat]
      omega
    . rw [yHigh64Bits_toNat, ← Option.some.inj hq]
      exact scaled_eq _ e
  . rw [if_pos hsign]
    have hsigned := (IsComparison.greater (show -q < (x.abs : ℚ) by linarith)).signed x.isNegative
    generalize x.isNegative = b at hsign hsigned ⊢
    generalize negative y = c at hsign ⊢
    cases b <;> cases c
    . contradiction
    . exact hsigned
    . rw [if_pos rfl, show - -q = q by ring] at hsigned
      exact hsigned
    . contradiction

end

theorem compare_exact {x : BigInt p} (hx : Canonical x) {y : BitVec 64} {v : WithBot (WithTop ℚ)} (hy : number y = some v)
    : (compare x y < 0 ↔ ((x.toInt : ℚ) : WithTop ℚ) < v) ∧ (compare x y = 0 ↔ ((x.toInt : ℚ) : WithTop ℚ) = v)
      ∧ (0 < compare x y ↔ v < ((x.toInt : ℚ) : WithTop ℚ)) := by
  have hcompare : IsComparison (((x.toInt : ℚ) : WithTop ℚ) : WithBot (WithTop ℚ)) v (compare x y) := by
    by_cases hfinite : biasedExponent y = 2047
    . exact compare_infinite x hy hfinite
    obtain ⟨q, hq, hcompare⟩ := compare_finite hx hfinite
    rw [number_of_magnitude hq] at hy
    obtain rfl := Option.some.inj hy
    exact hcompare.coe
  generalize compare x y = c at hcompare ⊢
  cases hcompare with
  | less h => simp [h, h.ne, h.not_gt]
  | equal h => simp [h]
  | greater h => simp [h, h.ne', h.not_gt]

-- The digits are those of the double but for one bit below its precision.
theorem compare_exact_threeDigits : 0 < compare threeNegativeDigits 0xC800000000000000 := by
  have hq : magnitude 0xC800000000000000 = some (2 ^ 129) := by
    have hexponent : biasedExponent 0xC800000000000000 = 1152 := rfl
    have hfraction : fraction 0xC800000000000000 = 0 := rfl
    rw [magnitude, hexponent, hfraction]
    norm_num
  rw [(compare_exact threeNegativeDigits_canonical (number_of_magnitude hq)).2.2, toInt_threeNegativeDigits,
    if_pos (show negative 0xC800000000000000 by decide)]
  norm_cast

end SpiderMonkey.BigInt
