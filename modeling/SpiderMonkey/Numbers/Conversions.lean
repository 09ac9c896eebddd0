import SpiderMonkey.Lib.OptionBind
import Mathlib.Data.Int.ModEq
import SpiderMonkey.Lib.Binary64
import SpiderMonkey.Numbers.Impl.Conversions

/-!
This module contains that the conversions from doubles to integers truncate, modulo the width of the result: what the
steps compute from the fields of a double, and the theorem.
-/

namespace SpiderMonkey.Conversions

open BitVec
open FloatingPoint Binary64

variable {w : Nat} {bits : BitVec 64}

theorem exponentField_eq (bits : BitVec 64)
    : ((bits &&& kExponentBits) >>> kExponentShift).toNat = biasedExponent bits := by
  have hmask : kExponentBits >>> kExponentShift = 2047#64 := by decide
  rw [ushiftRight_and_distrib, hmask, toNat_and, toNat_ushiftRight, Nat.shiftRight_eq_div_pow]
  exact Nat.and_two_pow_sub_one_eq_mod _ 11

theorem sign_iff (bits : BitVec 64) : bits &&& kSignBit ≠ 0 ↔ negative bits = true := by
  have hmask : kSignBit = BitVec.twoPow 64 63 := by decide
  rw [hmask, and_twoPow]
  unfold negative
  rw [msb_eq_getLsbD_last]
  cases bits.getLsbD 63 with
  | true => exact ⟨fun _ => rfl, fun _ => by decide⟩
  | false => exact ⟨fun h => absurd rfl h, (nomatch ·)⟩

theorem setWidth_shiftLeft (hw : w ≤ 64) {count : Nat} (hcount : count < 64)
    : (shiftLeft bits count).map (BitVec.setWidth w) = some (BitVec.ofNat w (bits.toNat * 2 ^ count)) := by
  unfold shiftLeft
  rw [if_pos hcount, Option.map_some]
  apply congrArg some
  apply eq_of_toNat_eq
  rw [toNat_setWidth, toNat_shiftLeft, toNat_ofNat, Nat.shiftLeft_eq]
  exact Nat.mod_mod_of_dvd _ (Nat.pow_dvd_pow 2 hw)

theorem setWidth_shiftRight {count : Nat} (hcount : count < 64)
    : (shiftRight bits count).map (BitVec.setWidth w) = some (BitVec.ofNat w (bits.toNat / 2 ^ count)) := by
  unfold shiftRight
  rw [if_pos hcount, Option.map_some]
  apply congrArg some
  apply eq_of_toNat_eq
  rw [toNat_setWidth, toNat_ushiftRight, toNat_ofNat, Nat.shiftRight_eq_div_pow]

theorem shift_eq (bits : BitVec 64) (hw : w ≤ 64) (he : e < 52 + w)
    : (if e > kExponentShift then shiftLeft bits (e - kExponentShift) else shiftRight bits (kExponentShift - e)).map
      (BitVec.setWidth w) = some (BitVec.ofNat w (scale bits.toNat e)) := by
  unfold kExponentShift kSignificandWidth scale
  split
  next h => exact setWidth_shiftLeft hw (by omega)
  next h => exact setWidth_shiftRight (by omega)

theorem shiftLeft_one (he : e < w)
    : (shiftLeft (1 : BitVec (promotedWidth w)) e).map (BitVec.setWidth w) = some (BitVec.twoPow w e) := by
  have hpromoted : e < promotedWidth w := Nat.lt_of_lt_of_le he (Nat.le_max_left _ _)
  unfold shiftLeft
  rw [if_pos hpromoted, Option.map_some]
  apply congrArg some
  apply eq_of_toNat_eq
  have htwoPow : (1 : BitVec (promotedWidth w)) <<< e = BitVec.twoPow (promotedWidth w) e := rfl
  rw [htwoPow, toNat_setWidth, toNat_twoPow_of_lt hpromoted, toNat_twoPow]

theorem implicitOne_eq (he : e < w) (x : Nat)
    : (BitVec.ofNat w x &&& (BitVec.twoPow w e - 1)) + BitVec.twoPow w e = BitVec.ofNat w (x % 2 ^ e + 2 ^ e) := by
  have hpow : 2 ^ e < 2 ^ w := Nat.pow_lt_pow_right (by decide) he
  have hpos : 1 ≤ 2 ^ e := Nat.one_le_two_pow
  have hone : (BitVec.twoPow w e - 1).toNat = 2 ^ e - 1 := by
    have hle : (1 : BitVec w) ≤ BitVec.twoPow w e := by
      rw [le_def, toNat_twoPow_of_lt he]
      exact Nat.le_trans (Nat.mod_le _ _) hpos
    rw [toNat_sub_of_le hle, toNat_twoPow_of_lt he]
    exact congrArg _ (Nat.mod_eq_of_lt (Nat.lt_of_le_of_lt hpos hpow))
  apply eq_of_toNat_eq
  rw [toNat_add, toNat_and, hone, toNat_twoPow_of_lt he, toNat_ofNat, toNat_ofNat,
    Nat.and_two_pow_sub_one_eq_mod, Nat.mod_mod_of_dvd _ (Nat.pow_dvd_pow 2 (Nat.le_of_lt he))]

theorem ofNat_of_dvd (hx : 2 ^ w ∣ x) : BitVec.ofNat w x = 0 := by
  apply eq_of_toNat_eq
  rw [toNat_ofNat, Nat.mod_eq_zero_of_dvd hx]
  exact (Nat.zero_mod _).symm

theorem magnitude_eq (e : Nat)
    : (if e < w then BitVec.ofNat w (scale bits.toNat e % 2 ^ e + 2 ^ e) else BitVec.ofNat w (scale bits.toNat e))
      = BitVec.ofNat w (scale (2 ^ 52 + fraction bits) e) := by
  obtain ⟨k, hk⟩ : ∃ k, bits.toNat = k * 2 ^ 52 + fraction bits := ⟨_, (Nat.div_add_mod' _ _).symm⟩
  have himplicit : scale (2 ^ 52 + fraction bits) e = 2 ^ e + scale (fraction bits) e := by
    have hone := scale_add 1 (fraction bits) e
    rwa [Nat.one_mul, Nat.one_mul] at hone
  rw [himplicit, hk, scale_add]
  split
  next h =>
    rw [Nat.mul_add_mod_self_right, Nat.mod_eq_of_lt (scale_lt (fraction_lt bits) e), Nat.add_comm]
  next h =>
    have hdvd : 2 ^ w ∣ 2 ^ e := Nat.pow_dvd_pow 2 (Nat.not_lt.mp h)
    rw [ofNat_add, ofNat_add, ofNat_of_dvd (Nat.dvd_mul_left_of_dvd hdvd k), ofNat_of_dvd hdvd]

theorem signed_eq (x : Nat)
    : (if bits &&& kSignBit ≠ 0 then ~~~(BitVec.ofNat w x) + 1 else BitVec.ofNat w x)
      = BitVec.ofInt w (if negative bits then -(x : Int) else x) := by
  rw [if_congr (sign_iff bits) rfl rfl]
  split
  . rw [ofInt_neg, ofInt_natCast]
    exact (neg_eq_not_add _).symm
  . rw [ofInt_natCast]

theorem ofInt_of_large (he : 52 + w ≤ e)
    : BitVec.ofInt w (if negative bits then -(scale x e : Int) else scale x e) = 0 := by
  have hdvd : 2 ^ w ∣ scale x e := by
    unfold scale
    split
    next h => exact Nat.dvd_mul_left_of_dvd (Nat.pow_dvd_pow 2 (by omega)) _
    next h =>
      have hzero : w = 0 := by omega
      exact hzero ▸ Nat.one_dvd _
  split
  . rw [ofInt_neg, ofInt_natCast, ofNat_of_dvd hdvd]
    exact BitVec.neg_zero w
  . rw [ofInt_natCast, ofNat_of_dvd hdvd]

theorem ToUnsignedInteger_eq (hw : w ≤ 64) (bits : BitVec 64)
    : ToUnsignedInteger w bits = some (BitVec.ofInt w (truncated bits)) := by
  have hbias : kExponentBias = 1023 := rfl
  have hlt : biasedExponent bits < 2048 := Nat.mod_lt _ (by decide)
  unfold ToUnsignedInteger
  dsimp only
  rw [exponentField_eq, hbias]
  split
  next h =>
    rw [truncated_of_lt (by omega)]
    rfl
  next h =>
    obtain ⟨e, he⟩ : ∃ e, e = biasedExponent bits - 1023 := ⟨_, rfl⟩
    have hcast : (biasedExponent bits : Int) - (1023 : Nat) = e := by omega
    rw [hcast, Int.toNat_natCast]
    split
    next hlarge =>
      change 52 + w ≤ e at hlarge
      by_cases hfinite : biasedExponent bits < 2047
      . rw [truncated_of_le (by omega) hfinite, ← he, ofInt_of_large hlarge]
        rfl
      . rw [truncated_of_none (if_pos (by omega))]
        rfl
    next hlarge =>
      change ¬52 + w ≤ e at hlarge
      rw [truncated_of_le (by omega) (by omega), ← he, ← signed_eq, ← magnitude_eq]
      obtain ⟨shifted, hshifted, hresult⟩ := Option.map_eq_some_iff.mp (shift_eq bits hw (Nat.not_le.mp hlarge))
      rw [hshifted, some_bind, hresult]
      split
      next hlow =>
        obtain ⟨one, hone, himplicit⟩ := Option.map_eq_some_iff.mp (shiftLeft_one hlow)
        rw [hone, Option.bind_eq_bind, some_bind, himplicit, implicitOne_eq hlow]
        rfl
      next => rfl

theorem WrapToSigned_eq (hw : 0 < w) (u : BitVec w) : WrapToSigned u = u.toInt := by
  obtain ⟨k, rfl⟩ : ∃ k, w = k + 1 := ⟨w - 1, by omega⟩
  have hpow : 2 ^ (k + 1) = 2 * 2 ^ k := Nat.pow_succ'
  have hpos : 0 < 2 ^ k := Nat.two_pow_pos k
  have hu := u.isLt
  have hmaxValue : MaxValue (k + 1) = ((2 ^ k - 1 : Nat) : Int) := by
    unfold MaxValue
    rw [Nat.cast_sub hpos]
    push_cast
    rfl
  have hminValue : MinValue (k + 1) = -((2 ^ k : Nat) : Int) := by
    unfold MinValue
    rw [hmaxValue]
    omega
  have hmax : (BitVec.ofInt (k + 1) (MaxValue (k + 1))).toNat = 2 ^ k - 1 := by
    rw [hmaxValue, ofInt_natCast, toNat_ofNat, Nat.mod_eq_of_lt (by omega)]
  have hmin : (BitVec.ofInt (k + 1) (MinValue (k + 1))).toNat = 2 ^ k := by
    have hmod : 2 ^ k % 2 ^ (k + 1) = 2 ^ k := Nat.mod_eq_of_lt (by omega)
    rw [hminValue, ofInt_neg, ofInt_natCast, toNat_neg, toNat_ofNat, hmod, Nat.mod_eq_of_lt (by omega)]
    omega
  unfold WrapToSigned
  split
  next h => rfl
  next h =>
    rw [le_def, hmax] at h
    have hle : BitVec.ofInt (k + 1) (MinValue (k + 1)) ≤ u := by
      rw [le_def, hmin]
      omega
    have hsub := toNat_sub_of_le hle
    rw [hmin] at hsub
    rw [toInt_eq_toNat_of_lt (by omega), hsub, hminValue, toInt_eq_toNat_cond, if_neg (by omega)]
    omega

open Binary64

theorem ToSignedInteger_eq (hpos : 0 < w) (hw : w ≤ 64) (bits : BitVec 64)
    : ToSignedInteger w bits = some ((truncated bits).bmod (2 ^ w)) := by
  unfold ToSignedInteger
  rw [ToUnsignedInteger_eq hw, some_bind, WrapToSigned_eq hpos, toInt_ofInt]
  rfl

theorem bmod_bounds (hpos : 0 < w) (z : Int)
    : MinValue w ≤ z.bmod (2 ^ w) ∧ z.bmod (2 ^ w) ≤ MaxValue w := by
  have hpow : 2 ^ w = 2 * 2 ^ (w - 1) := by
    rw [← Nat.pow_succ', Nat.succ_eq_add_one, Nat.sub_add_cancel hpos]
  have hcast : (2 : Int) ^ (w - 1) = (2 ^ (w - 1) : Nat) := by push_cast; rfl
  have hge := Int.le_bmod (x := z) (Nat.two_pow_pos w)
  have hlt := Int.bmod_lt (x := z) (Nat.two_pow_pos w)
  rw [hpow] at hge hlt
  unfold MinValue MaxValue
  rw [hcast, hpow]
  omega

theorem conversions_exact (d : BitVec 64)
    : (∀ w ∈ [8, 16, 32, 64], ∃ u s, ToUnsignedInteger w d = some u ∧ ToSignedInteger w d = some s
        ∧ (u.toNat : Int) ≡ truncated d [ZMOD 2 ^ w] ∧ s ≡ truncated d [ZMOD 2 ^ w] ∧ MinValue w ≤ s ∧ s ≤ MaxValue w)
      ∧ (value d = none → truncated d = 0)
      ∧ ∃ i u, ToInt32 d = some i ∧ ToUint32 d = some u ∧ i ≡ u.toNat [ZMOD 2 ^ 32] := by
  have hunsigned (w : Nat) : ((BitVec.ofInt w (truncated d)).toNat : Int) ≡ truncated d [ZMOD 2 ^ w] := by
    have hpos : (0 : Int) < (2 ^ w : Nat) := by exact_mod_cast Nat.two_pow_pos w
    rw [toNat_ofInt, Int.toNat_of_nonneg (Int.emod_nonneg _ (Int.ne_of_gt hpos))]
    exact_mod_cast Int.mod_modEq _ _
  have hsigned (w : Nat) : (truncated d).bmod (2 ^ w) ≡ truncated d [ZMOD 2 ^ w] := by
    have hmod := Int.bmod_emod (x := truncated d) (m := 2 ^ w)
    exact_mod_cast hmod
  refine ⟨fun w hw => ?_, fun hnone => ?_, ?_⟩
  . have hpos : 0 < w := by
      revert w
      decide
    have hle : w ≤ 64 := by
      revert w
      decide
    exact ⟨_, _, ToUnsignedInteger_eq hle d, ToSignedInteger_eq hpos hle d, hunsigned w, hsigned w,
      bmod_bounds hpos (truncated d)⟩
  . unfold truncated
    rw [hnone]
    rfl
  . exact ⟨_, _, ToSignedInteger_eq (by decide) (by decide) d, ToUnsignedInteger_eq (by decide) d,
      (hsigned 32).trans (hunsigned 32).symm⟩

end SpiderMonkey.Conversions
