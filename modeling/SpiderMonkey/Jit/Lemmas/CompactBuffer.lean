import Mathlib.Tactic.Ring
import SpiderMonkey.Jit.Impl.CompactBuffer

/-!
This module contains what the compact buffer reads back of what it has written.
-/

namespace SpiderMonkey

open ByteStream

theorem uint32_eq_self (h : n < 2 ^ 32)
    : uint32 n = n :=
  Nat.mod_eq_of_lt h

namespace Endianness

theorem bytes_length {endianness : Endianness} {value : Nat}
    : (endianness.bytes value).length = 4 := by
  cases endianness <;> rfl

theorem load_bytes {endianness : Endianness} {data : List (BitVec 8)} {pos value : Nat} (hvalue : value < 2 ^ 32)
    (h : At data pos (endianness.bytes value))
    : endianness.load data pos = some value := by
  have hshift (i : Nat) : value >>> i = value / 2 ^ i := Nat.shiftRight_eq_div_pow _ _
  obtain ⟨b0, b1, b2, b3, hbytes⟩ : ∃ b0 b1 b2 b3, endianness.bytes value = [b0, b1, b2, b3] := by
    cases endianness <;> exact ⟨_, _, _, _, rfl⟩
  rw [hbytes] at h
  have h0 := h.getElem?
  have h1 := ((@at_append data [b0] _ _).mp h).right
  have h2 := ((@at_append data [b1] _ _).mp h1).right
  have h3 := ((@at_append data [b2] _ _).mp h2).right
  simp only [List.length_cons, List.length_nil, Nat.zero_add, Nat.add_assoc, Nat.reduceAdd] at h1 h2 h3
  simp only [load, h0, h1.getElem?, h2.getElem?, h3.getElem?]
  cases endianness <;> simp only [bytes, List.map_cons, List.map_nil, List.cons.injEq, and_true] at hbytes <;>
    obtain ⟨rfl, rfl, rfl, rfl⟩ := hbytes <;>
    simp [hshift] <;>
    omega

end Endianness

namespace CompactBufferWriter

theorem writeUnsigned_eq (value : Nat) (w : CompactBufferWriter)
    : writeUnsigned value w = w ++ writeUnsigned value [] := by
  induction value using Nat.strong_induction_on generalizing w with
  | _ value ih =>
    nth_rewrite 1 [writeUnsigned]
    nth_rewrite 2 [writeUnsigned]
    by_cases hlast : value >>> 7 = 0
    . simp only [hlast, ↓reduceIte, writeByte, List.nil_append]
    have hlt : value >>> 7 < value := by
      rw [Nat.shiftRight_eq_div_pow] at hlast ⊢
      omega
    simp only [hlast, ↓reduceIte, writeByte, List.nil_append]
    rw [ih _ hlt, ih _ hlt [_], List.append_assoc]

theorem writeUnsigned_ne_nil (value : Nat)
    : writeUnsigned value [] ≠ [] := by
  rw [writeUnsigned]
  split
  . simp [writeByte]
  . rw [writeUnsigned_eq]
    simp [writeByte]

end CompactBufferWriter

namespace CompactBufferReader

open CompactBufferWriter

theorem reads_readByte (x : BitVec 8)
    : Reads readByte [x] x.toNat :=
  (reads_byte x).bind reads_pure

theorem reads_readVariableLengthFrom {rounds val shift value : Nat} (hshift : shift + 7 * rounds = 35)
    (hval : val < 2 ^ shift) (hvalue : value * 2 ^ shift < 2 ^ 32) (hrounds : 0 < rounds)
    : Reads (readVariableLengthFrom rounds val shift) (writeUnsigned value []) (val + value * 2 ^ shift) := by
  induction rounds generalizing val shift value with
  | zero => omega
  | succ rounds ih =>
    have hlow : value &&& 0x7F = value % 128 := Nat.and_two_pow_sub_one_eq_mod value 7
    have hhigh : value >>> 7 = value / 128 := Nat.shiftRight_eq_div_pow value 7
    have hpow : 0 < 2 ^ shift := Nat.two_pow_pos shift
    have hor : val ||| uint32 ((value % 128) <<< shift) = val + value % 128 * 2 ^ shift := by
      have hle : value % 128 * 2 ^ shift ≤ value * 2 ^ shift := Nat.mul_le_mul_right _ (Nat.mod_le _ _)
      rw [Nat.shiftLeft_eq, uint32_eq_self (by omega), Nat.or_comm, ← Nat.shiftLeft_eq,
        ← Nat.shiftLeft_add_eq_or_of_lt hval, Nat.shiftLeft_eq, Nat.add_comm]
    rw [writeUnsigned, readVariableLengthFrom]
    by_cases hlast : value / 128 = 0
    . have hbyte : (BitVec.ofNat 8 ((value % 128) <<< 1 ||| 0)).toNat = value % 128 * 2 := by
        rw [Nat.or_zero, Nat.shiftLeft_eq, BitVec.toNat_ofNat]
        omega
      have hgt : ¬value > 0x7F := by omega
      simp only [hhigh, hlow, hlast, hgt, ↓reduceIte, writeByte, List.nil_append]
      refine @Reads.bind _ _ _ _ _ [] _ _ (reads_readByte _) ?_
      rw [hbyte, Nat.shiftRight_eq_div_pow, Nat.pow_one, Nat.mul_div_cancel _ (by decide), hor,
        Nat.and_one_is_mod, Nat.mul_mod_left, if_pos rfl, Nat.mod_eq_of_lt (by omega)]
      exact reads_pure
    have hbyte : (BitVec.ofNat 8 ((value % 128) <<< 1 ||| 1)).toNat = value % 128 * 2 + 1 := by
      rw [← Nat.shiftLeft_add_eq_or_of_lt (by decide), Nat.shiftLeft_eq, BitVec.toNat_ofNat]
      omega
    have hgt : value > 0x7F := by omega
    have hnext : value / 128 * 2 ^ (shift + 7) < 2 ^ 32 := by
      calc
        value / 128 * 2 ^ (shift + 7) = value / 128 * 128 * 2 ^ shift := by rw [Nat.pow_add]; ring
        _ ≤ value * 2 ^ shift := Nat.mul_le_mul_right _ (Nat.div_mul_le_self _ _)
        _ < 2 ^ 32 := hvalue
    have hmore : 0 < rounds := by
      by_contra hzero
      have : shift = 28 := by omega
      subst this
      omega
    simp only [hhigh, hlow, hlast, hgt, ↓reduceIte, writeByte, List.nil_append]
    rw [writeUnsigned_eq]
    refine (reads_readByte _).bind ?_
    rw [hbyte, Nat.shiftRight_eq_div_pow, Nat.pow_one, Nat.and_one_is_mod,
      show (value % 128 * 2 + 1) / 2 = value % 128 by omega, hor,
      show (value % 128 * 2 + 1) % 2 = 1 by omega, if_neg (by decide)]
    have hval' : val + value % 128 * 2 ^ shift < 2 ^ (shift + 7) := by
      have : value % 128 * 2 ^ shift ≤ 127 * 2 ^ shift := Nat.mul_le_mul_right _ (by omega)
      rw [Nat.pow_add]
      omega
    have hsum : val + value % 128 * 2 ^ shift + value / 128 * 2 ^ (shift + 7) = val + value * 2 ^ shift := by
      conv => rhs; rw [← Nat.div_add_mod value 128]
      rw [Nat.pow_add]
      ring
    rw [← hsum]
    exact ih (by omega) hval' hnext hmore

theorem reads_readUnsigned {value : Nat} (hvalue : value < 2 ^ 32)
    : Reads readUnsigned (writeUnsigned value []) value := by
  have := @reads_readVariableLengthFrom 5 0 0 value rfl (by decide) (by omega) (by decide)
  simpa [readUnsigned] using this

end CompactBufferReader

end SpiderMonkey
