import SpiderMonkey.Lib.OptionBind
import Mathlib.Data.List.Chain
import SpiderMonkey.Jit.Lemmas.CompactBuffer
import SpiderMonkey.Jit.Impl.JitcodeIonTable

/-!
This module contains what one region of the table holds: its deltas, its script/pc stack, and the search for a
pc in its run.
-/

namespace SpiderMonkey

open List Int
open ByteStream CompactBufferReader CompactBufferWriter

theorem int32_eq_self (hge : -2 ^ 31 ≤ n) (hlt : n < 2 ^ 31)
    : int32 n = n := by
  rw [int32, bmod_def]
  omega

theorem int32_eq_sub (h : n = m + 2 ^ 32) (hge : -2 ^ 31 ≤ m) (hlt : m < 2 ^ 31)
    : int32 n = m := by
  rw [h, int32, bmod_def]
  omega

def InlineScriptTree.callStack {JSScript : Type} : InlineScriptTree JSScript → Nat → List (JSScript × Nat)
  | outermost _ script, pc => [(script, pc)]
  | inlined _ caller callerPc script, pc => (script, pc) :: caller.callStack callerPc

theorem InlineScriptTree.depth_pos {JSScript : Type} (tree : InlineScriptTree JSScript)
    : 0 < tree.depth := by
  cases tree with
  | outermost address script => exact Nat.one_pos
  | inlined address caller callerPc script => exact Nat.add_pos_left Nat.one_pos _

namespace JitcodeRegionEntry

section Fields

variable {mark pc native pcShift nativeShift : Nat}

theorem or_fields (hmark : mark < 2 ^ pcShift) (hpc : pc <<< pcShift + mark < 2 ^ nativeShift)
    : mark ||| pc <<< pcShift ||| native <<< nativeShift = native * 2 ^ nativeShift + pc * 2 ^ pcShift + mark := by
  rw [Nat.or_comm mark, ← Nat.shiftLeft_add_eq_or_of_lt hmark, Nat.or_comm, ← Nat.shiftLeft_add_eq_or_of_lt hpc,
    Nat.shiftLeft_eq, Nat.shiftLeft_eq]
  omega

theorem or_bytes (b0 b1 b2 : BitVec 8)
    : b0.toNat ||| b1.toNat <<< 8 ||| b2.toNat <<< 16 = b2.toNat * 2 ^ 16 + b1.toNat * 2 ^ 8 + b0.toNat := by
  have := b0.isLt
  have := b1.isLt
  apply or_fields (by omega)
  rw [Nat.shiftLeft_eq]
  omega

theorem or_bytes' (b0 b1 b2 b3 : BitVec 8)
    : b0.toNat ||| b1.toNat <<< 8 ||| b2.toNat <<< 16 ||| b3.toNat <<< 24
        = b3.toNat * 2 ^ 24 + b2.toNat * 2 ^ 16 + b1.toNat * 2 ^ 8 + b0.toNat := by
  have := b0.isLt
  have := b1.isLt
  have := b2.isLt
  rw [or_bytes, Nat.or_comm, ← Nat.shiftLeft_add_eq_or_of_lt (by omega), Nat.shiftLeft_eq]
  omega

theorem and_shiftLeft_mask (x k width : Nat)
    : x <<< k &&& (2 ^ width - 1) <<< k = (x % 2 ^ width) <<< k := by
  rw [← Nat.shiftLeft_and_distrib, Nat.and_two_pow_sub_one_eq_mod]

theorem and_mask_shiftRight (x k width : Nat)
    : (x &&& (2 ^ width - 1) <<< k) >>> k = x / 2 ^ k % 2 ^ width := by
  rw [Nat.shiftRight_and_distrib, Nat.shiftLeft_shiftRight, Nat.and_two_pow_sub_one_eq_mod, Nat.shiftRight_eq_div_pow]

theorem enc1_iff (x : Nat) : x &&& ENC1_MASK = ENC1_MASK_VAL ↔ x % 2 = 0 := by
  rw [← Nat.and_one_is_mod]
  rfl

theorem enc2_iff (x : Nat) : x &&& ENC2_MASK = ENC2_MASK_VAL ↔ x % 4 = 1 := by
  rw [← Nat.and_two_pow_sub_one_eq_mod x 2]
  rfl

theorem enc3_iff (x : Nat) : x &&& ENC3_MASK = ENC3_MASK_VAL ↔ x % 8 = 3 := by
  rw [← Nat.and_two_pow_sub_one_eq_mod x 3]
  rfl

theorem enc4_iff (x : Nat) : x &&& ENC4_MASK = ENC4_MASK_VAL ↔ x % 8 = 7 := by
  rw [← Nat.and_two_pow_sub_one_eq_mod x 3]
  rfl

theorem toNat_writeByte (encVal i : Nat)
    : (BitVec.ofNat 8 (encVal >>> i &&& 0xff)).toNat = encVal / 2 ^ i % 2 ^ 8 := by
  rw [BitVec.toNat_ofNat, show 0xff = 2 ^ 8 - 1 from rfl, Nat.and_two_pow_sub_one_eq_mod, Nat.mod_mod,
    Nat.shiftRight_eq_div_pow]

theorem toNat_writeByte_first (encVal : Nat)
    : (BitVec.ofNat 8 (encVal &&& 0xff)).toNat = encVal % 2 ^ 8 := by
  have := toNat_writeByte encVal 0
  rwa [Nat.shiftRight_zero, Nat.pow_zero, Nat.div_one] at this

theorem fixSign_eq {k ones : Nat} {max pcDelta : Int} (hmax : max = 2 ^ k - 1) (hk : k < 31)
    (hmask : toUnsigned (-max - 1) = ones <<< k) (hones : 1 ||| ones = ones) (htop : ones * 2 ^ k + 2 ^ k = 2 ^ 32)
    (hge : -2 ^ k ≤ pcDelta) (hlt : pcDelta < 2 ^ k)
    : fixSign (pcDelta % 2 ^ (k + 1)).toNat max = pcDelta := by
  have hpow : ((2 ^ k : Nat) : Int) = 2 ^ k := by norm_cast
  have hdouble : (2 : Int) ^ (k + 1) = 2 * 2 ^ k := by rw [pow_succ, mul_comm]
  have hbound : 2 ^ k ≤ 2 ^ 30 := Nat.pow_le_pow_right (by decide) (by omega)
  have hpos := Nat.two_pow_pos k
  rw [fixSign]
  by_cases hsign : 0 ≤ pcDelta
  . have hfield : pcDelta % 2 ^ (k + 1) = pcDelta := emod_eq_of_lt hsign (by omega)
    rw [hfield, if_neg (by omega), toNat_of_nonneg hsign]
    exact int32_eq_self (by omega) (by omega)
  have hfield : pcDelta % 2 ^ (k + 1) = pcDelta + 2 * 2 ^ k := by
    rw [← add_emod_right, emod_eq_of_lt (by omega) (by omega), hdouble]
  obtain ⟨low, hlow⟩ : ∃ low : Nat, pcDelta + 2 ^ k = low := ⟨(pcDelta + 2 ^ k).toNat, by omega⟩
  have hlowlt : low < 2 ^ k := by omega
  have hunsigned : (pcDelta % 2 ^ (k + 1)).toNat = 1 <<< k ||| low := by
    rw [← Nat.shiftLeft_add_eq_or_of_lt hlowlt, Nat.shiftLeft_eq, hfield]
    omega
  have hset : 1 <<< k ||| low ||| ones <<< k = ones * 2 ^ k + low := by
    rw [Nat.or_assoc, Nat.or_comm low, ← Nat.or_assoc, ← Nat.shiftLeft_or_distrib, hones,
      ← Nat.shiftLeft_add_eq_or_of_lt hlowlt, Nat.shiftLeft_eq]
  have hgt : (pcDelta % 2 ^ (k + 1)).toNat > max.toNat := by omega
  have hwrap : ((ones * 2 ^ k + low : Nat) : Int) = pcDelta + 2 ^ 32 := by omega
  rw [if_pos hgt, hunsigned, hmask, hset]
  exact int32_eq_sub hwrap (by omega) (by omega)

end Fields

section Delta

variable {b0 b1 b2 b3 : BitVec 8} {nativeDelta : Nat} {pcDelta : Int}

theorem reads_readDelta_enc1 (he : b0.toNat = nativeDelta * 2 ^ 4 + pcDelta.toNat * 2 ^ 1) (hge : 0 ≤ pcDelta)
    (hle : pcDelta ≤ 7) (hzero : nativeDelta = 0 → pcDelta ≤ 0)
    : Reads ReadDelta [b0] (nativeDelta, pcDelta) := by
  have hnative : b0.toNat >>> ENC1_NATIVE_DELTA_SHIFT = nativeDelta := by
    rw [Nat.shiftRight_eq_div_pow, show ENC1_NATIVE_DELTA_SHIFT = 4 from rfl]
    omega
  have hfield : (b0.toNat &&& ENC1_PC_DELTA_MASK) >>> ENC1_PC_DELTA_SHIFT = pcDelta.toNat := by
    rw [show ENC1_PC_DELTA_MASK = (2 ^ 3 - 1) <<< 1 from rfl, show ENC1_PC_DELTA_SHIFT = 1 from rfl,
      and_mask_shiftRight]
    omega
  have hpc : int32 pcDelta.toNat = pcDelta := by
    rw [toNat_of_nonneg hge]
    exact int32_eq_self (by omega) (by omega)
  refine @Reads.bind _ _ _ _ _ [] _ _ (reads_readByte b0) ?_
  rw [if_pos ((enc1_iff _).mpr (by omega))]
  simp only [hnative, hfield, hpc]
  exact (reads_guard hzero).bind reads_pure

theorem reads_readDelta_enc2 (he : b1.toNat * 2 ^ 8 + b0.toNat = nativeDelta * 2 ^ 8 + pcDelta.toNat * 2 ^ 2 + 1)
    (hge : 0 ≤ pcDelta) (hle : pcDelta ≤ 63) (hne : pcDelta ≠ 0) (hzero : nativeDelta = 0 → pcDelta ≤ 0)
    : Reads ReadDelta [b0, b1] (nativeDelta, pcDelta) := by
  have hb0 := b0.isLt
  have henc : b0.toNat ||| b1.toNat <<< 8 = nativeDelta * 2 ^ 8 + pcDelta.toNat * 2 ^ 2 + 1 := by
    rw [Nat.or_comm, ← Nat.shiftLeft_add_eq_or_of_lt hb0, Nat.shiftLeft_eq]
    omega
  have hnative : (b0.toNat ||| b1.toNat <<< 8) >>> ENC2_NATIVE_DELTA_SHIFT = nativeDelta := by
    rw [henc, Nat.shiftRight_eq_div_pow, show ENC2_NATIVE_DELTA_SHIFT = 8 from rfl]
    omega
  have hfield : ((b0.toNat ||| b1.toNat <<< 8) &&& ENC2_PC_DELTA_MASK) >>> ENC2_PC_DELTA_SHIFT = pcDelta.toNat := by
    rw [henc, show ENC2_PC_DELTA_MASK = (2 ^ 6 - 1) <<< 2 from rfl, show ENC2_PC_DELTA_SHIFT = 2 from rfl,
      and_mask_shiftRight]
    omega
  have hpc : int32 pcDelta.toNat = pcDelta := by
    rw [toNat_of_nonneg hge]
    exact int32_eq_self (by omega) (by omega)
  refine @Reads.bind _ _ _ _ _ [b1] _ _ (reads_readByte b0) ?_
  rw [if_neg (mt (enc1_iff _).mp (by omega))]
  refine @Reads.bind _ _ _ _ _ [] _ _ (reads_readByte b1) ?_
  rw [if_pos ((enc2_iff _).mpr (by omega))]
  simp only [hnative, hfield, hpc]
  exact (reads_guard hne).bind ((reads_guard hzero).bind reads_pure)

theorem reads_readDelta_enc3
    (he : b2.toNat * 2 ^ 16 + b1.toNat * 2 ^ 8 + b0.toNat = nativeDelta * 2 ^ 13 + (pcDelta % 2 ^ 10).toNat * 2 ^ 3 + 3)
    (hge : -2 ^ 9 ≤ pcDelta) (hlt : pcDelta < 2 ^ 9) (hne : pcDelta ≠ 0) (hzero : nativeDelta = 0 → pcDelta ≤ 0)
    : Reads ReadDelta [b0, b1, b2] (nativeDelta, pcDelta) := by
  have hnative : (b0.toNat ||| b1.toNat <<< 8 ||| b2.toNat <<< 16) >>> ENC3_NATIVE_DELTA_SHIFT = nativeDelta := by
    rw [or_bytes, he, Nat.shiftRight_eq_div_pow, show ENC3_NATIVE_DELTA_SHIFT = 13 from rfl]
    omega
  have hfield : ((b0.toNat ||| b1.toNat <<< 8 ||| b2.toNat <<< 16) &&& ENC3_PC_DELTA_MASK) >>> ENC3_PC_DELTA_SHIFT
      = (pcDelta % 2 ^ 10).toNat := by
    rw [or_bytes, he, show ENC3_PC_DELTA_MASK = (2 ^ 10 - 1) <<< 3 from rfl, show ENC3_PC_DELTA_SHIFT = 3 from rfl,
      and_mask_shiftRight]
    omega
  have hpc : fixSign (pcDelta % 2 ^ 10).toNat ENC3_PC_DELTA_MAX = pcDelta :=
    @fixSign_eq 9 (2 ^ 23 - 1) _ _ rfl (by decide) (by decide) (by decide) (by decide) hge hlt
  refine @Reads.bind _ _ _ _ _ [b1, b2] _ _ (reads_readByte b0) ?_
  rw [if_neg (mt (enc1_iff _).mp (by omega))]
  refine @Reads.bind _ _ _ _ _ [b2] _ _ (reads_readByte b1) ?_
  rw [if_neg (mt (enc2_iff _).mp (by omega))]
  refine @Reads.bind _ _ _ _ _ [] _ _ (reads_readByte b2) ?_
  rw [if_pos ((enc3_iff _).mpr (by omega))]
  simp only [hnative, hfield, hpc]
  exact (reads_guard hne).bind ((reads_guard hzero).bind reads_pure)

theorem reads_readDelta_enc4 (he : b3.toNat * 2 ^ 24 + b2.toNat * 2 ^ 16 + b1.toNat * 2 ^ 8 + b0.toNat
      = nativeDelta * 2 ^ 16 + (pcDelta % 2 ^ 13).toNat * 2 ^ 3 + 7)
    (hge : -2 ^ 12 ≤ pcDelta) (hlt : pcDelta < 2 ^ 12) (hne : pcDelta ≠ 0) (hzero : nativeDelta = 0 → pcDelta ≤ 0)
    : Reads ReadDelta [b0, b1, b2, b3] (nativeDelta, pcDelta) := by
  have hnative : (b0.toNat ||| b1.toNat <<< 8 ||| b2.toNat <<< 16 ||| b3.toNat <<< 24) >>> ENC4_NATIVE_DELTA_SHIFT
      = nativeDelta := by
    rw [or_bytes', he, Nat.shiftRight_eq_div_pow, show ENC4_NATIVE_DELTA_SHIFT = 16 from rfl]
    omega
  have hfield : ((b0.toNat ||| b1.toNat <<< 8 ||| b2.toNat <<< 16 ||| b3.toNat <<< 24) &&& ENC4_PC_DELTA_MASK)
      >>> ENC4_PC_DELTA_SHIFT = (pcDelta % 2 ^ 13).toNat := by
    rw [or_bytes', he, show ENC4_PC_DELTA_MASK = (2 ^ 13 - 1) <<< 3 from rfl, show ENC4_PC_DELTA_SHIFT = 3 from rfl,
      and_mask_shiftRight]
    omega
  have hpc : fixSign (pcDelta % 2 ^ 13).toNat ENC4_PC_DELTA_MAX = pcDelta :=
    @fixSign_eq 12 (2 ^ 20 - 1) _ _ rfl (by decide) (by decide) (by decide) (by decide) hge hlt
  refine @Reads.bind _ _ _ _ _ [b1, b2, b3] _ _ (reads_readByte b0) ?_
  rw [if_neg (mt (enc1_iff _).mp (by omega))]
  refine @Reads.bind _ _ _ _ _ [b2, b3] _ _ (reads_readByte b1) ?_
  rw [if_neg (mt (enc2_iff _).mp (by omega))]
  refine @Reads.bind _ _ _ _ _ [b3] _ _ (reads_readByte b2) ?_
  rw [if_neg (mt (enc3_iff _).mp (by omega))]
  refine (reads_guard ((enc4_iff _).mpr (by omega))).bind ?_
  refine @Reads.bind _ _ _ _ _ [] _ _ (reads_readByte b3) ?_
  simp only [hnative, hfield, hpc]
  exact (reads_guard hne).bind ((reads_guard hzero).bind reads_pure)

theorem exists_writeDelta_reads (henc : IsDeltaEncodeable nativeDelta pcDelta) (hne : pcDelta ≠ 0)
    (hzero : nativeDelta = 0 → pcDelta ≤ 0)
    : ∃ bytes, bytes ≠ [] ∧ Writes (WriteDelta nativeDelta pcDelta) bytes
      ∧ Reads ReadDelta bytes (nativeDelta, pcDelta) := by
  obtain ⟨hnative, hge, hle⟩ := henc
  have hunsigned (hge : 0 ≤ pcDelta) (hle : pcDelta ≤ 63) : toUnsigned pcDelta = pcDelta.toNat := by
    rw [toUnsigned]
    omega
  have hfield3 : toUnsigned pcDelta % 2 ^ 10 = (pcDelta % 2 ^ 10).toNat := by
    rw [toUnsigned]
    omega
  have hfield4 : toUnsigned pcDelta % 2 ^ 13 = (pcDelta % 2 ^ 13).toNat := by
    rw [toUnsigned]
    omega
  by_cases henc1 : pcDelta ≥ 0 ∧ pcDelta ≤ ENC1_PC_DELTA_MAX ∧ nativeDelta ≤ ENC1_NATIVE_DELTA_MAX
  . obtain ⟨hge, hle, hnative⟩ := id henc1
    rw [ENC1_PC_DELTA_MAX] at hle
    rw [ENC1_NATIVE_DELTA_MAX] at hnative
    have hval : ENC1_MASK_VAL ||| toUnsigned pcDelta <<< ENC1_PC_DELTA_SHIFT
        ||| nativeDelta <<< ENC1_NATIVE_DELTA_SHIFT = nativeDelta * 2 ^ 4 + pcDelta.toNat * 2 ^ 1 := by
      rw [hunsigned hge (by omega), show ENC1_MASK_VAL = 0 from rfl, show ENC1_PC_DELTA_SHIFT = 1 from rfl,
        show ENC1_NATIVE_DELTA_SHIFT = 4 from rfl, or_fields (by decide) (by rw [Nat.shiftLeft_eq]; omega)]
      omega
    refine ⟨[BitVec.ofNat 8 (nativeDelta * 2 ^ 4 + pcDelta.toNat * 2 ^ 1)], by simp, fun w => ?_, ?_⟩
    . rw [WriteDelta, if_pos henc1, hval]
      rfl
    apply reads_readDelta_enc1 _ hge hle hzero
    rw [BitVec.toNat_ofNat]
    omega
  by_cases henc2 : pcDelta ≥ 0 ∧ pcDelta ≤ ENC2_PC_DELTA_MAX ∧ nativeDelta ≤ ENC2_NATIVE_DELTA_MAX
  . obtain ⟨hge, hle, hnative⟩ := id henc2
    rw [ENC2_PC_DELTA_MAX] at hle
    rw [ENC2_NATIVE_DELTA_MAX] at hnative
    obtain ⟨encVal, hencVal⟩ : ∃ encVal, encVal = nativeDelta * 2 ^ 8 + pcDelta.toNat * 2 ^ 2 + 1 := ⟨_, rfl⟩
    have hval : (ENC2_MASK_VAL ||| toUnsigned pcDelta <<< ENC2_PC_DELTA_SHIFT
        ||| nativeDelta <<< ENC2_NATIVE_DELTA_SHIFT) % 2 ^ 16 = encVal := by
      rw [hunsigned hge hle, show ENC2_MASK_VAL = 1 from rfl, show ENC2_PC_DELTA_SHIFT = 2 from rfl,
        show ENC2_NATIVE_DELTA_SHIFT = 8 from rfl, or_fields (by decide) (by rw [Nat.shiftLeft_eq]; omega)]
      omega
    refine ⟨[BitVec.ofNat 8 (encVal &&& 0xff), BitVec.ofNat 8 (encVal >>> 8 &&& 0xff)], by simp, fun w => ?_, ?_⟩
    . rw [WriteDelta, if_neg henc1, if_pos henc2]
      simp only [hval, writeByte, append_assoc, cons_append, nil_append]
    apply reads_readDelta_enc2 _ hge hle hne hzero
    rw [toNat_writeByte, toNat_writeByte_first]
    omega
  by_cases henc3 : pcDelta ≥ ENC3_PC_DELTA_MIN ∧ pcDelta ≤ ENC3_PC_DELTA_MAX ∧ nativeDelta ≤ ENC3_NATIVE_DELTA_MAX
  . obtain ⟨hge, hle, hnative⟩ := id henc3
    rw [ENC3_PC_DELTA_MAX] at hle
    rw [ENC3_PC_DELTA_MIN, ENC3_PC_DELTA_MAX] at hge
    rw [ENC3_NATIVE_DELTA_MAX] at hnative
    obtain ⟨encVal, hencVal⟩ : ∃ encVal, encVal = nativeDelta * 2 ^ 13 + (pcDelta % 2 ^ 10).toNat * 2 ^ 3 + 3 :=
      ⟨_, rfl⟩
    have hval : uint32 (ENC3_MASK_VAL ||| (toUnsigned pcDelta <<< ENC3_PC_DELTA_SHIFT &&& ENC3_PC_DELTA_MASK)
        ||| nativeDelta <<< ENC3_NATIVE_DELTA_SHIFT) = encVal := by
      rw [show ENC3_MASK_VAL = 3 from rfl, show ENC3_PC_DELTA_SHIFT = 3 from rfl,
        show ENC3_NATIVE_DELTA_SHIFT = 13 from rfl, show ENC3_PC_DELTA_MASK = (2 ^ 10 - 1) <<< 3 from rfl,
        and_shiftLeft_mask, hfield3, or_fields (by decide) (by rw [Nat.shiftLeft_eq]; omega),
        uint32_eq_self (by omega), hencVal]
    refine ⟨[BitVec.ofNat 8 (encVal &&& 0xff), BitVec.ofNat 8 (encVal >>> 8 &&& 0xff),
      BitVec.ofNat 8 (encVal >>> 16 &&& 0xff)], by simp, fun w => ?_, ?_⟩
    . rw [WriteDelta, if_neg henc1, if_neg henc2, if_pos henc3]
      simp only [hval, writeByte, append_assoc, cons_append, nil_append]
    apply reads_readDelta_enc3 _ (by omega) (by omega) hne hzero
    rw [toNat_writeByte, toNat_writeByte, toNat_writeByte_first]
    omega
  have henc4 : pcDelta ≥ ENC4_PC_DELTA_MIN ∧ pcDelta ≤ ENC4_PC_DELTA_MAX ∧ nativeDelta ≤ ENC4_NATIVE_DELTA_MAX :=
    ⟨hge, hle, hnative⟩
  rw [ENC4_PC_DELTA_MAX] at hle
  rw [ENC4_PC_DELTA_MIN, ENC4_PC_DELTA_MAX] at hge
  rw [ENC4_NATIVE_DELTA_MAX] at hnative
  obtain ⟨encVal, hencVal⟩ : ∃ encVal, encVal = nativeDelta * 2 ^ 16 + (pcDelta % 2 ^ 13).toNat * 2 ^ 3 + 7 :=
    ⟨_, rfl⟩
  have hval : uint32 (ENC4_MASK_VAL ||| (toUnsigned pcDelta <<< ENC4_PC_DELTA_SHIFT &&& ENC4_PC_DELTA_MASK)
      ||| nativeDelta <<< ENC4_NATIVE_DELTA_SHIFT) = encVal := by
    rw [show ENC4_MASK_VAL = 7 from rfl, show ENC4_PC_DELTA_SHIFT = 3 from rfl,
      show ENC4_NATIVE_DELTA_SHIFT = 16 from rfl, show ENC4_PC_DELTA_MASK = (2 ^ 13 - 1) <<< 3 from rfl,
      and_shiftLeft_mask, hfield4, or_fields (by decide) (by rw [Nat.shiftLeft_eq]; omega),
      uint32_eq_self (by omega), hencVal]
  refine ⟨[BitVec.ofNat 8 (encVal &&& 0xff), BitVec.ofNat 8 (encVal >>> 8 &&& 0xff),
    BitVec.ofNat 8 (encVal >>> 16 &&& 0xff), BitVec.ofNat 8 (encVal >>> 24 &&& 0xff)], by simp, fun w => ?_, ?_⟩
  . rw [WriteDelta, if_neg henc1, if_neg henc2, if_neg henc3, if_pos henc4]
    simp only [hval, writeByte, append_assoc, cons_append, nil_append]
  apply reads_readDelta_enc4 _ (by omega) (by omega) hne hzero
  rw [toNat_writeByte, toNat_writeByte, toNat_writeByte, toNat_writeByte_first]
  omega

end Delta

section Stack

variable {JSScript : Type} [DecidableEq JSScript] {scriptList : List JSScript}

def Listed (scriptList : List JSScript) (stack : List (JSScript × Nat)) : Prop :=
  ∀ location ∈ stack, location.fst ∈ scriptList ∧ location.snd < 2 ^ 32

def scriptPcs (scriptList : List JSScript) (stack : List (JSScript × Nat)) : List (Nat × Nat) :=
  stack.map fun location => (scriptList.idxOf location.fst, location.snd)

theorem reads_readScriptPc (hidx : scriptIdx < 2 ^ 32) (hpc : pcOffset < 2 ^ 32)
    : Reads ReadScriptPc (writeUnsigned scriptIdx [] ++ writeUnsigned pcOffset []) (scriptIdx, pcOffset) := by
  refine (reads_readUnsigned hidx).bind ?_
  rw [← append_nil (writeUnsigned pcOffset [])]
  exact (reads_readUnsigned hpc).bind reads_pure

theorem iterateScriptPcs_succ {data bs cs : List (BitVec 8)} {pos count : Nat} {pair : Nat × Nat}
    {pairs : List (Nat × Nat)} (hpair : Reads ReadScriptPc bs pair) (hne : bs ≠ []) (hat : At data pos (bs ++ cs))
    (hpairs : iterateScriptPcs count ⟨data, pos + bs.length, pos + bs.length + cs.length⟩ = some pairs)
    : iterateScriptPcs (count + 1) ⟨data, pos, pos + (bs ++ cs).length⟩ = some (pair :: pairs) := by
  have hpos : 0 < bs.length := length_pos_iff.mpr hne
  have hread := hpair data pos (pos + (bs ++ cs).length) (at_append.mp hat).left (by simp)
  have hlt : pos < pos + (bs ++ cs).length := by
    rw [length_append]
    omega
  rw [iterateScriptPcs]
  simp only [guard, hlt, ↓reduceIte, hread, Option.pure_def, some_bind]
  rw [length_append, ← Nat.add_assoc, hpairs, some_bind]

theorem exists_writeScriptPcStack {tree : InlineScriptTree JSScript} {pc : Nat}
    (hlength : scriptList.length < 2 ^ 32) (hlisted : Listed scriptList (tree.callStack pc))
    : ∃ bytes, bytes ≠ [] ∧ (∀ w, writeScriptPcStack scriptList tree.depth tree pc w = w ++ bytes)
      ∧ Reads (skipScriptPcs tree.depth) bytes ()
      ∧ ∀ data pos, At data pos bytes → iterateScriptPcs tree.depth ⟨data, pos, pos + bytes.length⟩
            = some (scriptPcs scriptList (tree.callStack pc)) := by
  have hpair {script : JSScript} {pc : Nat} (hscript : script ∈ scriptList) (hpc : pc < 2 ^ 32)
      : Reads ReadScriptPc (writeUnsigned (scriptList.idxOf script) [] ++ writeUnsigned pc [])
          (scriptList.idxOf script, pc) := by
    have := idxOf_lt_length_iff.mpr hscript
    exact reads_readScriptPc (by omega) hpc
  have hne (script : JSScript) (pc : Nat) : writeUnsigned (scriptList.idxOf script) [] ++ writeUnsigned pc [] ≠ [] :=
    append_ne_nil_of_left_ne_nil (writeUnsigned_ne_nil _) _
  have hwrite (script : JSScript) {pc : Nat} (hpc : pc < 2 ^ 32) (w : CompactBufferWriter)
      : WriteScriptPc (scriptList.idxOf script) (uint32 pc) w
          = w ++ (writeUnsigned (scriptList.idxOf script) [] ++ writeUnsigned pc []) := by
    rw [WriteScriptPc, uint32_eq_self hpc, writeUnsigned_eq, writeUnsigned_eq _ w, append_assoc]
  induction tree generalizing pc with
  | outermost address script =>
    obtain ⟨hscript, hpc⟩ := hlisted (script, pc) (mem_singleton_self _)
    refine ⟨_, hne script pc, fun w => hwrite script hpc w, ?_, fun data pos hat => ?_⟩
    . rw [← append_nil (writeUnsigned _ [] ++ _)]
      exact (hpair hscript hpc).bind reads_pure
    . rw [← append_nil (writeUnsigned _ [] ++ _)] at hat ⊢
      exact iterateScriptPcs_succ (hpair hscript hpc) (hne script pc) hat (by simp [iterateScriptPcs])
  | inlined address caller callerPc script ih =>
    obtain ⟨hscript, hpc⟩ := hlisted (script, pc) mem_cons_self
    obtain ⟨bytes, -, hbytes, hskip, hiterate⟩ :=
      @ih callerPc fun location hlocation => hlisted location (mem_cons_of_mem _ hlocation)
    have hdepth : (InlineScriptTree.inlined address caller callerPc script).depth = caller.depth + 1 :=
      Nat.add_comm 1 _
    refine ⟨_ ++ bytes, append_ne_nil_of_left_ne_nil (hne script pc) _, fun w => ?_, ?_, fun data pos hat => ?_⟩
    . rw [hdepth, writeScriptPcStack]
      simp only [InlineScriptTree.script, InlineScriptTree.caller, hwrite script hpc, hbytes, append_assoc]
    . rw [hdepth]
      exact (hpair hscript hpc).bind hskip
    . rw [hdepth]
      exact iterateScriptPcs_succ (hpair hscript hpc) (hne script pc) hat (hiterate data _ (at_append.mp hat).right)

end Stack

section Run

variable {JSScript : Type} {entry entry' : NativeToBytecode JSScript} {rest : List (NativeToBytecode JSScript)}
variable {bytes : List (BitVec 8)} {queryNativeOffset : Nat}

theorem nativeDelta_eq (hle : a ≤ b) (hb : b < 2 ^ 32)
    : JitcodeRegionEntry.nativeDelta a b = b - a := by
  rw [JitcodeRegionEntry.nativeDelta, uint32]
  omega

theorem toUnsigned_add_bytecodeDelta {a b : Nat} (hb : b < 2 ^ 32)
    : toUnsigned (a + bytecodeDelta a b) = b := by
  simp only [toUnsigned, bytecodeDelta, int32, bmod_def]
  omega

theorem bytecodeDelta_ne_zero {a b : Nat} (ha : a < 2 ^ 32) (hb : b < 2 ^ 32) (hne : a ≠ b)
    : bytecodeDelta a b ≠ 0 := by
  intro hzero
  have := @toUnsigned_add_bytecodeDelta a b hb
  rw [hzero, add_zero, toUnsigned] at this
  omega

structure Fits (entry : NativeToBytecode JSScript) : Prop where
  nativeOffset_lt : entry.nativeOffset < 2 ^ 32
  pc_lt : entry.pc < 2 ^ 32

structure Follows (entry entry' : NativeToBytecode JSScript) : Prop where
  tree_eq : entry'.tree = entry.tree
  encodeable : IsDeltaEncodeable (nativeDelta entry.nativeOffset entry'.nativeOffset)
    (bytecodeDelta entry.pc entry'.pc)

structure Advances (entry entry' : NativeToBytecode JSScript) : Prop where
  nativeOffset_lt : entry.nativeOffset < entry'.nativeOffset
  differs : entry.tree ≠ entry'.tree ∨ entry.pc ≠ entry'.pc

inductive DeltaRun : NativeToBytecode JSScript → List (NativeToBytecode JSScript) → List (BitVec 8) → Prop where
  | nil {entry : NativeToBytecode JSScript} : DeltaRun entry [] []
  | cons {entry entry' : NativeToBytecode JSScript} {rest : List (NativeToBytecode JSScript)}
      {delta bytes : List (BitVec 8)}
    : delta ≠ [] → Fits entry' → entry.nativeOffset < entry'.nativeOffset
      → Reads ReadDelta delta (nativeDelta entry.nativeOffset entry'.nativeOffset, bytecodeDelta entry.pc entry'.pc)
      → DeltaRun entry' rest bytes → DeltaRun entry (entry' :: rest) (delta ++ bytes)

theorem exists_writeDeltas (hfits : ∀ e ∈ entry :: rest, Fits e) (hfollows : (entry :: rest).IsChain Follows)
    (hadvances : (entry :: rest).IsChain Advances)
    : ∃ bytes, Writes (writeDeltas entry.nativeOffset entry.pc rest) bytes ∧ DeltaRun entry rest bytes := by
  induction rest generalizing entry with
  | nil => exact ⟨[], writes_some, .nil⟩
  | cons entry' rest ih =>
    obtain ⟨hfollow, hfollows⟩ := isChain_cons_cons.mp hfollows
    obtain ⟨hadvance, hadvances⟩ := isChain_cons_cons.mp hadvances
    obtain ⟨hentry, hfits⟩ := forall_mem_cons.mp hfits
    have hentry' := hfits entry' mem_cons_self
    have hpc : entry.pc ≠ entry'.pc := hadvance.differs.resolve_left (fun h => h hfollow.tree_eq.symm)
    have hlt := hadvance.nativeOffset_lt
    have hpos : nativeDelta entry.nativeOffset entry'.nativeOffset ≠ 0 := by
      rw [nativeDelta_eq hlt.le hentry'.nativeOffset_lt]
      omega
    obtain ⟨delta, hne, hwrite, hread⟩ := exists_writeDelta_reads hfollow.encodeable
      (bytecodeDelta_ne_zero hentry.pc_lt hentry'.pc_lt hpc) (fun h => absurd h hpos)
    obtain ⟨bytes, hwrites, hrun⟩ := ih hfits hfollows hadvances
    refine ⟨delta ++ bytes, ?_, .cons hne hentry' hlt hread hrun⟩
    intro w
    rw [writeDeltas]
    simp only [uint32_eq_self hentry'.nativeOffset_lt, uint32_eq_self hentry'.pc_lt]
    exact hwrite.bind hwrites w

-- The last entry whose offset is below the query, and the first entry when there is none.
def entryFor (entry : NativeToBytecode JSScript) (rest : List (NativeToBytecode JSScript)) (queryNativeOffset : Nat)
    : NativeToBytecode JSScript :=
  ((entry :: rest).filter (·.nativeOffset < queryNativeOffset)).getLast?.getD entry

theorem entryFor_eq
    : entryFor entry rest queryNativeOffset
        = (rest.filter (·.nativeOffset < queryNativeOffset)).getLast?.getD entry := by
  rw [entryFor, filter_cons]
  split
  . rw [List.getLast?_cons, Option.getD_some]
  . rfl

theorem entryFor_cons (hsorted : (entry' :: rest).Pairwise (·.nativeOffset < ·.nativeOffset))
    : entryFor entry (entry' :: rest) queryNativeOffset
        = if queryNativeOffset ≤ entry'.nativeOffset then entry else entryFor entry' rest queryNativeOffset := by
  split
  next hle =>
    have hnone : (entry' :: rest).filter (·.nativeOffset < queryNativeOffset) = [] := by
      rw [filter_eq_nil_iff]
      intro e he
      have : entry'.nativeOffset ≤ e.nativeOffset := by
        cases he with
        | head => exact Nat.le_refl _
        | tail _ he => exact (rel_of_pairwise_cons hsorted he).le
      simp only [decide_eq_true_eq]
      omega
    rw [entryFor_eq, hnone]
    rfl
  next hle =>
    rw [entryFor_eq, entryFor_eq, filter_cons_of_pos (by simpa using hle), List.getLast?_cons, Option.getD_some]

theorem findPcOffsetFrom_padding {data : List (BitVec 8)} {pos pad rounds curNativeOffset curPcOffset : Nat}
    (hnative : curNativeOffset < 2 ^ 32) (hpc : curPcOffset < 2 ^ 32) (hat : At data pos (List.replicate pad 0))
    (hrounds : pad < rounds)
    : findPcOffsetFrom queryNativeOffset rounds ⟨data, pos, pos + pad⟩ curNativeOffset curPcOffset
        = some curPcOffset := by
  induction rounds generalizing pos pad with
  | zero => omega
  | succ rounds ih =>
    cases pad with
    | zero => simp [findPcOffsetFrom]
    | succ pad =>
      have hread : Reads ReadDelta [0] (0, 0) :=
        reads_readDelta_enc1 rfl (le_refl 0) (by decide) (fun _ => le_refl 0)
      rw [replicate_succ, ← singleton_append] at hat
      have hat := at_append.mp hat
      have hstep := hread data pos (pos + (pad + 1)) hat.left (Nat.add_le_add_left (by simp) pos)
      have hmore : pos < pos + (pad + 1) := by omega
      have hzero : toUnsigned (curPcOffset + 0) = curPcOffset := by
        rw [toUnsigned]
        omega
      simp only [findPcOffsetFrom, hmore, ↓reduceIte, hstep, some_bind, Nat.zero_add,
        uint32_eq_self hnative, hzero, Option.pure_def]
      split
      . rfl
      . have := ih hat.right (by omega)
        rwa [show pos + [(0 : BitVec 8)].length + pad = pos + (pad + 1) by simp; omega] at this

theorem findPcOffsetFrom_eq {data : List (BitVec 8)} {pos pad rounds : Nat} (hrun : DeltaRun entry rest bytes)
    (hentry : Fits entry) (hsorted : (entry :: rest).Pairwise (·.nativeOffset < ·.nativeOffset))
    (hat : At data pos (bytes ++ List.replicate pad 0)) (hrounds : bytes.length + pad < rounds)
    : findPcOffsetFrom queryNativeOffset rounds ⟨data, pos, pos + bytes.length + pad⟩ entry.nativeOffset entry.pc
        = some (entryFor entry rest queryNativeOffset).pc := by
  induction hrun generalizing pos rounds with
  | @nil entry =>
    rw [entryFor_eq]
    exact findPcOffsetFrom_padding hentry.nativeOffset_lt hentry.pc_lt hat (by simpa using hrounds)
  | @cons entry entry' rest delta bytes hne hentry' hlt hread hrun ih =>
    obtain ⟨rounds, rfl⟩ : ∃ n, rounds = n + 1 := ⟨rounds - 1, by omega⟩
    have hpos : 0 < delta.length := length_pos_iff.mpr hne
    rw [length_append] at hrounds
    rw [append_assoc] at hat
    have hat := at_append.mp hat
    have hstep := hread data pos (pos + (delta ++ bytes).length + pad) hat.left
      (by rw [length_append]; omega)
    have hmore : pos < pos + (delta ++ bytes).length + pad := by
      rw [length_append]
      omega
    have hnative : uint32 (nativeDelta entry.nativeOffset entry'.nativeOffset + entry.nativeOffset)
        = entry'.nativeOffset := by
      rw [nativeDelta_eq hlt.le hentry'.nativeOffset_lt, Nat.sub_add_cancel hlt.le,
        uint32_eq_self hentry'.nativeOffset_lt]
    have hsorted' := (pairwise_cons.mp hsorted).right
    simp only [findPcOffsetFrom, hmore, ↓reduceIte, hstep, some_bind, hnative,
      toUnsigned_add_bytecodeDelta hentry'.pc_lt, Option.pure_def]
    rw [entryFor_cons hsorted']
    split
    . rfl
    . rw [length_append, ← Nat.add_assoc pos]
      exact ih hentry' hsorted' hat.right (by omega)

end Run

section Region

variable {JSScript : Type} [DecidableEq JSScript] {scriptList : List JSScript}
variable {entry : NativeToBytecode JSScript} {rest : List (NativeToBytecode JSScript)} {bytes : List (BitVec 8)}

structure RunBytes (scriptList : List JSScript) (entry : NativeToBytecode JSScript)
    (rest : List (NativeToBytecode JSScript)) (bytes : List (BitVec 8)) : Prop where
  parts : ∃ head stack deltas, bytes = head ++ (stack ++ deltas) ∧ head ≠ [] ∧ stack ≠ []
    ∧ Reads ReadHead head (entry.nativeOffset, entry.tree.depth)
    ∧ Reads (skipScriptPcs entry.tree.depth) stack ()
    ∧ (∀ data pos, At data pos stack → iterateScriptPcs entry.tree.depth ⟨data, pos, pos + stack.length⟩
          = some (scriptPcs scriptList (entry.tree.callStack entry.pc)))
    ∧ DeltaRun entry rest deltas

theorem RunBytes.ne_nil (h : RunBytes scriptList entry rest bytes)
    : bytes ≠ [] := by
  obtain ⟨head, stack, deltas, rfl, hne, -⟩ := h
  exact append_ne_nil_of_left_ne_nil hne _

theorem exists_writeHead {nativeOffset scriptDepth : Nat} (hoffset : nativeOffset < 2 ^ 32) (hdepth : scriptDepth < 2 ^ 8)
    : ∃ head, head ≠ [] ∧ (∀ w, WriteHead nativeOffset scriptDepth w = w ++ head)
      ∧ Reads ReadHead head (nativeOffset, scriptDepth) := by
  refine ⟨writeUnsigned nativeOffset [] ++ [BitVec.ofNat 8 scriptDepth], by simp, fun w => ?_, ?_⟩
  . rw [WriteHead, writeUnsigned_eq]
    exact append_assoc _ _ _
  have hbyte := reads_readByte (BitVec.ofNat 8 scriptDepth)
  rw [BitVec.toNat_ofNat, Nat.mod_eq_of_lt hdepth] at hbyte
  exact (reads_readUnsigned hoffset).bind (hbyte.bind reads_pure)

theorem exists_writeRun (hlength : scriptList.length < 2 ^ 32)
    (hlisted : Listed scriptList (entry.tree.callStack entry.pc)) (hdepth : entry.tree.depth ≤ 0xff)
    (hfits : ∀ e ∈ entry :: rest, Fits e) (hfollows : (entry :: rest.take (runLength - 1)).IsChain Follows)
    (hadvances : (entry :: rest).IsChain Advances)
    : ∃ bytes, Writes (WriteRun scriptList runLength entry rest) bytes
      ∧ RunBytes scriptList entry (rest.take (runLength - 1)) bytes := by
  have hentry := hfits entry mem_cons_self
  have hdepth : entry.tree.depth < 2 ^ 8 := by omega
  have htake : entry :: rest.take (runLength - 1) = (entry :: rest).take (runLength - 1 + 1) := by
    rw [take_succ_cons]
  have hfits' : ∀ e ∈ entry :: rest.take (runLength - 1), Fits e := by
    rw [htake]
    exact fun e he => hfits e (mem_of_mem_take he)
  have hadvances' : (entry :: rest.take (runLength - 1)).IsChain Advances := by
    rw [htake]
    exact hadvances.take _
  obtain ⟨head, hheadne, hhead, hreadHead⟩ := exists_writeHead hentry.nativeOffset_lt hdepth
  obtain ⟨stack, hstackne, hstack, hskip, hiterate⟩ := exists_writeScriptPcStack hlength hlisted
  obtain ⟨deltas, hdeltas, hrun⟩ := exists_writeDeltas hfits' hfollows hadvances'
  refine ⟨head ++ (stack ++ deltas), fun w => ?_,
    ⟨head, stack, deltas, rfl, hheadne, hstackne, hreadHead, hskip, hiterate, hrun⟩⟩
  simp only [WriteRun, uint32_eq_self hentry.nativeOffset_lt, uint32_eq_self hentry.pc_lt, Nat.mod_eq_of_lt hdepth,
    hhead, hstack]
  rw [hdeltas, append_assoc, append_assoc]

structure Describes (scriptList : List JSScript) (entry : NativeToBytecode JSScript)
    (rest : List (NativeToBytecode JSScript)) (region : JitcodeRegionEntry) : Prop where
  nativeOffset_eq : region.nativeOffset = entry.nativeOffset
  scriptPcs_eq : region.scriptPcIterator = some (scriptPcs scriptList (entry.tree.callStack entry.pc))
  findPcOffset_eq (queryNativeOffset : Nat)
    : region.findPcOffset queryNativeOffset entry.pc = some (entryFor entry rest queryNativeOffset).pc

theorem unpack_describes {data : List (BitVec 8)} {pos pad : Nat} (hrun : RunBytes scriptList entry rest bytes)
    (hentry : Fits entry) (hsorted : (entry :: rest).Pairwise (·.nativeOffset < ·.nativeOffset))
    (hat : At data pos (bytes ++ List.replicate pad 0))
    : ∃ region, unpack data pos (pos + bytes.length + pad) = some region ∧ Describes scriptList entry rest region := by
  obtain ⟨head, stack, deltas, rfl, hheadne, hstackne, hhead, hskip, hiterate, hdeltas⟩ := hrun
  have hheadpos : 0 < head.length := length_pos_iff.mpr hheadne
  have hstackpos : 0 < stack.length := length_pos_iff.mpr hstackne
  rw [append_assoc, append_assoc] at hat
  obtain ⟨hathead, hat⟩ := at_append.mp hat
  obtain ⟨hatstack, hatdeltas⟩ := at_append.mp hat
  obtain ⟨stop, hstop⟩ : ∃ stop, stop = pos + (head ++ (stack ++ deltas)).length + pad := ⟨_, rfl⟩
  have hlen : stop = pos + head.length + stack.length + deltas.length + pad := by
    rw [hstop, length_append, length_append]
    omega
  rw [← hstop]
  have hreadHead := hhead data pos stop hathead (by omega)
  have hreadStack := hskip data (pos + head.length) stop hatstack (by omega)
  refine ⟨⟨data, stop, entry.nativeOffset, entry.tree.depth, pos + head.length, pos + head.length + stack.length⟩,
    ?_, rfl, ?_, fun queryNativeOffset => ?_⟩
  . have hdata : pos < stop := by omega
    have hinside : pos + head.length < stop ∧ pos + head.length + stack.length ≤ stop := by omega
    simp only [unpack, guard, hdata, ↓reduceIte, hreadHead, entry.tree.depth_pos, hreadStack, hinside, and_self,
      Option.pure_def, some_bind, gt_iff_lt]
  . exact hiterate data _ hatstack
  . rw [findPcOffset]
    simp only [hlen]
    exact findPcOffsetFrom_eq hdeltas hentry hsorted hatdeltas (by omega)

end Region

end JitcodeRegionEntry

end SpiderMonkey
