import SpiderMonkey.Lib.Leb128
import SpiderMonkey.Wasm.Impl.VarInt

/-!
This module contains that the decoder of wasm modules reads exactly the integers of the format, and what the encoder
wrote.
-/

variable {t : IntSize}

namespace SpiderMonkey.Wasm

open BitVec
open ByteStream Leb128

namespace IntSize

theorem numBitsInSevens_eq (t : IntSize) : t.numBitsInSevens = 7 * (t.numBits / 7) := by
  cases t <;> decide

theorem remainderBits_pos (t : IntSize) : 0 < t.numBits % 7 := by
  cases t <;> decide

end IntSize

variable {b : BitVec 8}

namespace Decoder

theorem toNat_or_shiftLeft {n shift : Nat} {u : BitVec n} (hu : u.toNat < 2 ^ shift) (hshift : shift ≤ n)
    (x : BitVec n) : (u ||| (x <<< shift)).toNat = (u.toNat + 2 ^ shift * x.toNat) % 2 ^ n := by
  have hpow : 2 ^ n = 2 ^ shift * 2 ^ (n - shift) := by
    rw [← Nat.pow_add]
    congr 1
    omega
  have hlow : (u.toNat + 2 ^ shift * x.toNat) % 2 ^ shift = u.toNat := by
    rw [Nat.add_mul_mod_self_left, Nat.mod_eq_of_lt hu]
  have hhigh : (u.toNat + 2 ^ shift * x.toNat) / 2 ^ shift = x.toNat := by
    rw [Nat.add_mul_div_left _ _ (Nat.two_pow_pos shift), Nat.div_eq_of_lt hu, Nat.zero_add]
  rw [toNat_or, toNat_shiftLeft, Nat.shiftLeft_eq, Nat.mul_comm x.toNat, hpow,
    Nat.mul_mod_mul_left, Nat.or_comm, ← Nat.two_pow_add_eq_or_of_lt hu, Nat.mod_mul, hlow, hhigh]
  omega

def accumulate (t : IntSize) (u : UInt t) (shift : Nat) : List (BitVec 8) → UInt t
  | [] => u
  | b :: bs => accumulate t (u ||| ((b &&& 0x7f#8).setWidth t.numBits <<< shift)) (shift + 7) bs

theorem toNat_group (t : IntSize) (b : BitVec 8) : ((b &&& 0x7f#8).setWidth t.numBits).toNat = group b := by
  revert b
  cases t <;> decide

theorem toNat_accumulate {t : IntSize} {bytes : List (BitVec 8)} {u : UInt t} {shift : Nat}
    (hu : u.toNat < 2 ^ shift) (hshift : shift + 7 * bytes.length ≤ t.numBits + 7)
    : (accumulate t u shift bytes).toNat = (u.toNat + 2 ^ shift * unsignedValue bytes) % 2 ^ t.numBits := by
  induction bytes generalizing u shift with
  | nil =>
    unfold accumulate unsignedValue
    rw [Nat.mul_zero, Nat.add_zero, Nat.mod_eq_of_lt u.isLt]
  | cons b bs ih =>
    rw [List.length_cons] at hshift
    have hor := toNat_or_shiftLeft hu (show shift ≤ t.numBits by omega) ((b &&& 0x7f#8).setWidth t.numBits)
    rw [toNat_group] at hor
    have hgroup := group_lt b
    have hpow : 2 ^ (shift + 7) = 2 ^ shift * 128 := Nat.pow_add 2 shift 7
    have hnext : u.toNat + 2 ^ shift * group b < 2 ^ (shift + 7) := by
      have hle := Nat.mul_le_mul_left (2 ^ shift) (Nat.le_of_lt_succ hgroup)
      omega
    unfold accumulate
    rw [ih _ (by omega), hor, unsignedValue, hpow, Nat.mod_add_mod, Nat.mul_add, ← Nat.mul_assoc, Nat.add_assoc]
    rw [hor]
    exact Nat.lt_of_le_of_lt (Nat.mod_le _ _) hnext

theorem toNat_accumulate_zero {t : IntSize} {bytes : List (BitVec 8)} (h : 7 * bytes.length ≤ t.numBits + 7)
    : (accumulate t 0 0 bytes).toNat = unsignedValue bytes % 2 ^ t.numBits := by
  have hacc := @toNat_accumulate t bytes 0 0 (by simp) (by omega)
  rw [hacc]
  simp

theorem setWidth_of_not_more (t : IntSize) (h : more b = false)
    : b.setWidth t.numBits = (b &&& 0x7f#8).setWidth t.numBits := by
  have hsame : b &&& 0x7f#8 = b := by
    revert b
    decide
  rw [hsame]

theorem readVarULast_accepts_iff (t : IntSize) (b : BitVec 8)
    : b.setWidth 32 &&& (BitVec.allOnes 32 <<< t.remainderBits) = 0#32
        ↔ more b = false ∧ ∀ j, j < 7 → t.numBits % 7 ≤ j → b.getLsbD j = false := by
  revert b
  cases t <;> decide

theorem and_highBit_iff (b : BitVec 8) : b &&& 0x80#8 = 0#8 ↔ more b = false := by
  revert b
  decide

theorem forall_getElem?_singleton {P : BitVec 8 → Prop} : (∀ b', [b][0]? = some b' → P b') ↔ P b := by
  constructor
  . intro h
    exact h b rfl
  rintro h b' hget
  cases hget
  exact h

theorem forall_getElem?_singleton_succ {P : BitVec 8 → Prop}
    : ∀ b', [b][n + 1]? = some b' → P b' :=
  nofun

theorem readVarUFrom_eq_some_iff {rounds shift : Nat} (h : shift + 7 * rounds = t.numBitsInSevens)
    (u v : UInt t) (c c' : Cursor)
    : readVarUFrom t rounds u shift c = some (v, c') ↔ ∃ bytes, take (rounds + 1) c = some (bytes, c')
          ∧ (∀ b, bytes[rounds]? = some b → ∀ j, j < 7 → t.numBits % 7 ≤ j → b.getLsbD j = false)
          ∧ v = accumulate t u shift bytes := by
  induction rounds generalizing u shift c with
  | zero =>
    rw [Nat.mul_zero, Nat.add_zero] at h
    unfold readVarUFrom readVarULast readFixedU8
    apply byte_bind_eq_some_iff <;> intro b c₁ hmore
    . rw [if_pos (by rw [ne_eq, readVarULast_accepts_iff, hmore]; exact fun h => Bool.noConfusion h.1)]
      constructor
      . intro hnone
        cases hnone
      . rintro ⟨_, hnone, _⟩
        cases hnone
    by_cases hbits : ∀ j, j < 7 → t.numBits % 7 ≤ j → b.getLsbD j = false
    . rw [if_neg (not_not_intro ((readVarULast_accepts_iff t b).mpr ⟨hmore, hbits⟩)), ← h,
        setWidth_of_not_more t hmore, pure_eq_some_iff, and_iff_right (forall_getElem?_singleton.mpr hbits)]
      rfl
    rw [if_pos (mt (fun haccepts => ((readVarULast_accepts_iff t b).mp haccepts).2) hbits)]
    constructor
    . intro hnone
      cases hnone
    . intro hrest
      exact absurd (hrest.1.1 b rfl) hbits
  | succ rounds ih =>
    unfold readVarUFrom readFixedU8
    apply byte_bind_eq_some_iff <;> intro b c₁ hmore
    . rw [if_neg (by rw [and_highBit_iff, hmore]; exact Bool.noConfusion)]
      exact ih (by omega) _ _
    . rw [if_pos ((and_highBit_iff b).mpr hmore), setWidth_of_not_more t hmore, pure_eq_some_iff, and_iff_right forall_getElem?_singleton_succ]
      rfl

def signMask (t : IntSize) : BitVec 8 := (0x7f#32 &&& (0xff#32 <<< t.remainderBits)).setWidth 8

theorem readVarSLast_accepts_iff (t : IntSize) (b : BitVec 8)
    : b &&& 0x80#8 = 0#8 ∧ b &&& signMask t
            = (if b &&& (1#32 <<< (t.remainderBits - 1)).setWidth 8 ≠ 0#8 then signMask t else 0#8)
        ↔ more b = false ∧ ∀ j, j < 7 → t.numBits % 7 ≤ j → b.getLsbD j = b.getLsbD (t.numBits % 7 - 1) := by
  revert b
  cases t <;> decide

def signExtend (t : IntSize) (rounds : Nat) (s : SInt t) (shift : Nat) (bytes : List (BitVec 8)) : SInt t :=
  if bytes.length ≤ rounds ∧ bit bytes (7 * bytes.length - 1) = true then
    s ||| (BitVec.allOnes t.numBits <<< (shift + 7 * bytes.length))
  else s

variable {bytes : List (BitVec 8)}

theorem bit_cons (b : BitVec 8) (h : bytes ≠ [])
    : bit (b :: bytes) (7 * (bytes.length + 1) - 1) = bit bytes (7 * bytes.length - 1) := by
  have hpos := List.length_pos_iff.mpr h
  unfold bit
  rw [show (7 * (bytes.length + 1) - 1) / 7 = (7 * bytes.length - 1) / 7 + 1 by omega,
    show (7 * (bytes.length + 1) - 1) % 7 = (7 * bytes.length - 1) % 7 by omega, List.getElem?_cons_succ]

theorem signExtend_cons {shift : Nat} (h : bytes ≠ [])
    : signExtend t (rounds + 1) s shift (b :: bytes) = signExtend t rounds s (shift + 7) bytes := by
  have hshift : shift + 7 * (bytes.length + 1) = shift + 7 + 7 * bytes.length := by omega
  unfold signExtend
  simp only [List.length_cons, bit_cons b h, Nat.add_le_add_iff_right, hshift]

theorem bit_singleton (b : BitVec 8) : b &&& 0x40#8 ≠ 0#8 ↔ bit [b] (7 * 1 - 1) = true := by
  revert b
  decide

theorem signExtend_singleton (t : IntSize) (rounds : Nat) (s : SInt t) (shift : Nat) (b : BitVec 8)
    : signExtend t (rounds + 1) s shift [b]
        = if b &&& 0x40#8 ≠ 0#8 then s ||| (BitVec.allOnes t.numBits <<< (shift + 7)) else s := by
  unfold signExtend
  simp only [List.length_singleton, bit_singleton, Nat.succ_le_succ (Nat.zero_le rounds), true_and, Nat.mul_one]

theorem readVarSFrom_eq_some_iff (rounds shift : Nat) (s v : SInt t) (c c' : Cursor)
    : readVarSFrom t rounds s shift c = some (v, c') ↔ ∃ bytes, take (rounds + 1) c = some (bytes, c')
          ∧ (∀ b, bytes[rounds]? = some b →
            ∀ j, j < 7 → t.numBits % 7 ≤ j → b.getLsbD j = b.getLsbD (t.numBits % 7 - 1))
          ∧ v = signExtend t rounds (accumulate t s shift bytes) shift bytes := by
  induction rounds generalizing s shift c with
  | zero =>
    have hremainder : t.remainderBits ≠ 0 := by
      cases t <;> decide
    unfold readVarSFrom readVarSLast readFixedU8
    rw [if_neg hremainder]
    apply byte_bind_eq_some_iff <;> intro b c₁ hmore
    . rw [if_pos (by rw [ne_eq, and_highBit_iff, hmore]; exact Bool.noConfusion)]
      constructor
      . intro hnone
        cases hnone
      . rintro ⟨_, hnone, _⟩
        cases hnone
    have haccepts := readVarSLast_accepts_iff t b
    have hhigh := (and_highBit_iff b).mpr hmore
    unfold signMask at haccepts
    rw [and_iff_right hhigh, and_iff_right hmore] at haccepts
    rw [if_neg (not_not_intro hhigh), setWidth_of_not_more t hmore]
    by_cases hbits : ∀ j, j < 7 → t.numBits % 7 ≤ j → b.getLsbD j = b.getLsbD (t.numBits % 7 - 1)
    . rw [if_neg (not_not_intro (haccepts.mpr hbits)), pure_eq_some_iff,
        and_iff_right (forall_getElem?_singleton.mpr hbits)]
      rfl
    rw [if_pos (mt haccepts.mp hbits)]
    constructor
    . intro hnone
      cases hnone
    . intro hrest
      exact absurd (hrest.1.1 b rfl) hbits
  | succ rounds ih =>
    unfold readVarSFrom readFixedU8
    apply byte_bind_eq_some_iff <;> intro b c₁ hmore
    . rw [if_neg (by rw [and_highBit_iff, hmore]; exact Bool.noConfusion), ih]
      apply exists_congr
      intro bs
      apply and_congr_right
      intro htake
      obtain ⟨data, pos, stop⟩ := c₁
      rw [signExtend_cons ((take_eq_some_iff _ _ _ _ _ _).mp htake).1.ne_nil]
      rfl
    . rw [if_pos ((and_highBit_iff b).mpr hmore), signExtend_singleton]
      split <;> rw [pure_eq_some_iff, and_iff_right forall_getElem?_singleton_succ] <;> rfl

structure Encoding (t : IntSize) (data : List (BitVec 8)) (pos stop : Nat) (bytes : List (BitVec 8)) : Prop where
  terminated : Terminated bytes
  length : bytes.length ≤ t.numBits / 7 + 1
  «at» : At data pos bytes
  stop : pos + bytes.length ≤ stop

theorem take_eq_some_iff_encoding {data : List (BitVec 8)} {pos stop : Nat}
    : take (t.numBits / 7 + 1) ⟨data, pos, stop⟩ = some (bytes, c)
        ↔ Encoding t data pos stop bytes ∧ c = ⟨data, pos + bytes.length, stop⟩ := by
  rw [take_eq_some_iff]
  constructor
  . rintro ⟨hterminated, hlength, hat, hstop, rfl⟩
    exact ⟨⟨hterminated, hlength, hat, hstop⟩, rfl⟩
  . rintro ⟨⟨hterminated, hlength, hat, hstop⟩, rfl⟩
    exact ⟨hterminated, hlength, hat, hstop, rfl⟩

theorem encoding_append (hterminated : Terminated bytes) (hlength : bytes.length ≤ t.numBits / 7 + 1)
    (w rest : List (BitVec 8)) : Encoding t (w ++ bytes ++ rest) w.length (w ++ bytes ++ rest).length bytes := by
  refine ⟨hterminated, hlength, ?_, ?_⟩
  . rw [List.append_assoc, At, List.drop_left]
    exact List.prefix_append bytes rest
  . rw [List.length_append, List.length_append]
    omega

theorem Encoding.exists_concat {data : List (BitVec 8)} {pos stop : Nat}
    (h : Encoding t data pos stop bytes)
    : ∃ init b, bytes = init ++ [b] ∧ init.length ≤ t.numBits / 7 := by
  refine ⟨bytes.dropLast, bytes.getLast h.terminated.ne_nil, ?_, ?_⟩
  . exact (List.dropLast_append_getLast h.terminated.ne_nil).symm
  have hlength := h.length
  rw [List.length_dropLast]
  omega

theorem getElem?_concat_imp_iff {init : List (BitVec 8)} (h : init.length ≤ n)
    (p : BitVec 8 → Prop) : (∀ b', (init ++ [b])[n]? = some b' → p b') ↔ (init.length = n → p b) := by
  constructor
  . rintro hall rfl
    exact hall b List.getElem?_concat_length
  intro hlast b' hget
  have hlt := (List.getElem?_eq_some_iff.mp hget).1
  rw [List.length_append, List.length_singleton] at hlt
  have heq : init.length = n := by omega
  subst heq
  rw [List.getElem?_concat_length, Option.some_inj] at hget
  rw [← hget]
  exact hlast rfl

theorem readVarU_eq_some_iff (t : IntSize) (data : List (BitVec 8)) (pos stop : Nat) (v : UInt t) (c : Cursor)
    : readVarU t ⟨data, pos, stop⟩ = some (v, c) ↔ ∃ bytes, Encoding t data pos stop bytes ∧ UnusedZero t.numBits bytes
          ∧ v.toNat = unsignedValue bytes ∧ c = ⟨data, pos + bytes.length, stop⟩ := by
  have hsevens := t.numBitsInSevens_eq
  unfold readVarU
  rw [show t.numBitsInSevens / 7 = t.numBits / 7 by omega, readVarUFrom_eq_some_iff (by omega)]
  simp only [take_eq_some_iff_encoding]
  apply exists_congr
  intro bytes
  have hvalue (h : Encoding t data pos stop bytes) (hzero : UnusedZero t.numBits bytes)
      : v = accumulate t 0 0 bytes ↔ v.toNat = unsignedValue bytes := by
    obtain ⟨init, b, rfl, hlength⟩ := h.exists_concat
    have hroom : 7 * (init ++ [b]).length ≤ t.numBits + 7 := by
      rw [List.length_append, List.length_singleton]
      omega
    have hlt := (unusedZero_iff hlength).mp hzero
    have hacc := toNat_accumulate_zero hroom
    rw [Nat.mod_eq_of_lt hlt] at hacc
    rw [← hacc]
    exact toNat_inj.symm
  have hbits (h : Encoding t data pos stop bytes)
      : (∀ b, bytes[t.numBits / 7]? = some b → ∀ j, j < 7 → t.numBits % 7 ≤ j → b.getLsbD j = false)
        ↔ UnusedZero t.numBits bytes := by
    obtain ⟨init, b, rfl, hlength⟩ := h.exists_concat
    rw [unusedZero_concat_iff hlength,
      getElem?_concat_imp_iff hlength fun b => ∀ j, j < 7 → t.numBits % 7 ≤ j → b.getLsbD j = false]
  constructor
  . rintro ⟨⟨h, hc⟩, hzero, hv⟩
    have hzero := (hbits h).mp hzero
    exact ⟨h, hzero, (hvalue h hzero).mp hv, hc⟩
  . rintro ⟨h, hzero, hv, hc⟩
    exact ⟨⟨h, hc⟩, (hbits h).mpr hzero, (hvalue h hzero).mpr hv⟩

theorem two_pow_seven_mul (k : Nat) : (128 : Int) ^ k = 2 ^ (7 * k) := by
  rw [show (128 : Int) = 2 ^ 7 by rfl, pow_mul]

theorem exists_toNat_signExtend (t : IntSize) {init : List (BitVec 8)} (h : init.length ≤ t.numBits / 7)
    : ∃ k : Int, ((signExtend t (t.numBits / 7) (accumulate t 0 0 (init ++ [b])) 0 (init ++ [b])).toNat : Int)
          = signedValue (init ++ [b]) + (2 ^ t.numBits : Nat) * k := by
  have hlength : (init ++ [b]).length = init.length + 1 := by simp
  have hacc := @toNat_accumulate_zero t (init ++ [b]) (by omega)
  have hsign : bit (init ++ [b]) (7 * (init ++ [b]).length - 1) = b.getLsbD 6 := by
    rw [hlength, ← bit_concat init b (show 6 < 7 by decide)]
    congr 1
  have hmod := Int.emod_add_mul_ediv (unsignedValue (init ++ [b]) : Int) (2 ^ t.numBits : Nat)
  have hlt := unsignedValue_lt (init ++ [b])
  unfold signExtend
  rw [signedValue_eq, hsign]
  by_cases hextend : (init ++ [b]).length ≤ t.numBits / 7 ∧ b.getLsbD 6 = true
  . have hshift : 7 * (init ++ [b]).length ≤ t.numBits := by omega
    have hsmall : unsignedValue (init ++ [b]) < 2 ^ (7 * (init ++ [b]).length) := by
      rw [Nat.pow_mul]
      exact hlt
    have hle := Nat.pow_le_pow_right (show 0 < 2 by decide) hshift
    rw [Nat.mod_eq_of_lt (Nat.lt_of_lt_of_le hsmall hle)] at hacc
    have hor := toNat_or_shiftLeft (by rw [hacc]; exact hsmall) hshift (BitVec.allOnes t.numBits)
    rw [hacc, toNat_allOnes] at hor
    rw [if_pos hextend, if_pos hextend.2, Nat.zero_add, hor, ← hlength, two_pow_seven_mul]
    have hmod := Int.emod_add_mul_ediv
      ((unsignedValue (init ++ [b]) + 2 ^ (7 * (init ++ [b]).length) * (2 ^ t.numBits - 1) : Nat) : Int)
      (2 ^ t.numBits : Nat)
    refine ⟨2 ^ (7 * (init ++ [b]).length)
      - ((unsignedValue (init ++ [b]) + 2 ^ (7 * (init ++ [b]).length) * (2 ^ t.numBits - 1) : Nat) : Int)
        / (2 ^ t.numBits : Nat), ?_⟩
    have hone : 1 ≤ 2 ^ t.numBits := Nat.one_le_two_pow
    rw [Int.mul_sub]
    push_cast [hone] at hmod ⊢
    rw [Int.mul_sub, Int.mul_one, Int.mul_comm (2 ^ (7 * (init ++ [b]).length))] at hmod ⊢
    omega
  rw [if_neg hextend, hacc]
  by_cases hset : b.getLsbD 6 = true
  . have hfull : (init ++ [b]).length = t.numBits / 7 + 1 := by
      rw [hlength] at hextend ⊢
      have : ¬ init.length + 1 ≤ t.numBits / 7 := fun hle => hextend ⟨hle, hset⟩
      omega
    have hover : t.numBits ≤ 7 * (init.length + 1) := by omega
    have hsplit : (2 : Int) ^ (7 * (init.length + 1)) = 2 ^ t.numBits * 2 ^ (7 * (init.length + 1) - t.numBits) := by
      rw [← pow_add]
      congr 1
      omega
    rw [if_pos hset, two_pow_seven_mul, hsplit]
    refine ⟨2 ^ (7 * (init.length + 1) - t.numBits) - (unsignedValue (init ++ [b]) : Int) / (2 ^ t.numBits : Nat), ?_⟩
    rw [Int.mul_sub]
    push_cast at hmod ⊢
    omega
  . rw [if_neg hset]
    refine ⟨-((unsignedValue (init ++ [b]) : Int) / (2 ^ t.numBits : Nat)), ?_⟩
    rw [Int.mul_neg]
    push_cast at hmod ⊢
    omega

theorem toInt_signExtend {init : List (BitVec 8)}
    (h : init.length ≤ t.numBits / 7) (hsign : UnusedSign t.numBits (init ++ [b]))
    : (signExtend t (t.numBits / 7) (accumulate t 0 0 (init ++ [b])) 0 (init ++ [b])).toInt
        = signedValue (init ++ [b]) := by
  obtain ⟨k, hk⟩ := exists_toNat_signExtend t (b := b) h
  obtain ⟨hmin, hmax⟩ := (unusedSign_iff h t.remainderBits_pos).mp hsign
  have hpow : (2 ^ t.numBits : Nat) = 2 * 2 ^ (t.numBits - 1) := by
    cases t <;> decide
  have hpow' : ((2 ^ (t.numBits - 1) : Nat) : Int) = 2 ^ (t.numBits - 1) := by push_cast; rfl
  rw [toInt_eq_toNat_bmod, hk, Int.bmod_eq_iff (Nat.two_pow_pos _)]
  refine ⟨?_, ?_, ?_⟩
  . omega
  . omega
  . exact ⟨-k, by rw [Int.mul_neg]; omega⟩

theorem readVarS_eq_some_iff (t : IntSize) (data : List (BitVec 8)) (pos stop : Nat) (v : SInt t) (c : Cursor)
    : readVarS t ⟨data, pos, stop⟩ = some (v, c) ↔ ∃ bytes, Encoding t data pos stop bytes ∧ UnusedSign t.numBits bytes
          ∧ v.toInt = signedValue bytes ∧ c = ⟨data, pos + bytes.length, stop⟩ := by
  have hsevens := t.numBitsInSevens_eq
  unfold readVarS
  rw [show t.numBitsInSevens / 7 = t.numBits / 7 by omega, readVarSFrom_eq_some_iff]
  simp only [take_eq_some_iff_encoding]
  apply exists_congr
  intro bytes
  have hvalue (h : Encoding t data pos stop bytes) (hsign : UnusedSign t.numBits bytes)
      : v = signExtend t (t.numBits / 7) (accumulate t 0 0 bytes) 0 bytes ↔ v.toInt = signedValue bytes := by
    obtain ⟨init, b, rfl, hlength⟩ := h.exists_concat
    rw [← toInt_signExtend hlength hsign]
    exact toInt_inj.symm
  have hbits (h : Encoding t data pos stop bytes)
      : (∀ b, bytes[t.numBits / 7]? = some b →
          ∀ j, j < 7 → t.numBits % 7 ≤ j → b.getLsbD j = b.getLsbD (t.numBits % 7 - 1))
        ↔ UnusedSign t.numBits bytes := by
    obtain ⟨init, b, rfl, hlength⟩ := h.exists_concat
    rw [unusedSign_concat_iff hlength t.remainderBits_pos, getElem?_concat_imp_iff hlength
        fun b => ∀ j, j < 7 → t.numBits % 7 ≤ j → b.getLsbD j = b.getLsbD (t.numBits % 7 - 1)]
  constructor
  . rintro ⟨⟨h, hc⟩, hsign, hv⟩
    have hsign := (hbits h).mp hsign
    exact ⟨h, hsign, (hvalue h hsign).mp hv, hc⟩
  . rintro ⟨h, hsign, hv, hc⟩
    exact ⟨⟨h, hc⟩, (hbits h).mpr hsign, (hvalue h hsign).mpr hv⟩

theorem uncheckedByte_of_byte (h : byte c = some (b, c'))
    : uncheckedByte c = some (b, c') := by
  obtain ⟨data, pos, stop⟩ := c
  obtain ⟨_, hget, rfl⟩ := byte_eq_some_iff.mp h
  unfold uncheckedByte
  rw [hget]
  rfl

theorem uncheckedReadVarUFrom_of_readVarUFrom {shift : Nat}
    (h : readVarUFrom t rounds u shift c = some (v, c'))
    : uncheckedReadVarUFrom t rounds u shift c = some (v, c') := by
  induction rounds generalizing u shift c with
  | zero =>
    unfold readVarUFrom readVarULast readFixedU8 at h
    unfold uncheckedReadVarUFrom
    obtain ⟨b, c₁, hbyte, hlast⟩ := bind_eq_some_iff.mp h
    apply bind_eq_some_iff.mpr
    refine ⟨b, c₁, uncheckedByte_of_byte hbyte, ?_⟩
    split at hlast
    next => cases hlast
    next => exact hlast
  | succ rounds ih =>
    unfold readVarUFrom readFixedU8 at h
    unfold uncheckedReadVarUFrom
    obtain ⟨b, c₁, hbyte, hrest⟩ := bind_eq_some_iff.mp h
    apply bind_eq_some_iff.mpr
    refine ⟨b, c₁, uncheckedByte_of_byte hbyte, ?_⟩
    split at hrest
    next hlast =>
      rw [if_pos hlast]
      exact hrest
    next hmore =>
      rw [if_neg hmore]
      exact ih hrest

end Decoder

namespace Encoder

theorem more_or (b : BitVec 8) : more (b ||| 0x80#8) = true := by
  revert b
  decide

theorem group_or (b : BitVec 8) : group (b ||| 0x80#8) = group b := by
  revert b
  decide

theorem toNat_low (i : UInt t) : ((i &&& 0x7f).setWidth 8).toNat = i.toNat % 128 := by
  have hand : (i &&& 0x7f).toNat = i.toNat % 128 := by
    rw [toNat_and]
    have hmask : (0x7f : UInt t).toNat = 2 ^ 7 - 1 := by
      cases t <;> rfl
    rw [hmask, Nat.and_two_pow_sub_one_eq_mod]
  rw [toNat_setWidth, hand]
  omega

theorem more_low (i : UInt t) : more ((i &&& 0x7f).setWidth 8) = false := by
  have hlow := toNat_low i
  generalize (i &&& 0x7f).setWidth 8 = b at hlow
  have hlt : b.toNat < 128 := by omega
  clear hlow
  revert b
  decide

theorem group_low (i : UInt t) : group ((i &&& 0x7f).setWidth 8) = i.toNat % 128 := by
  unfold group
  rw [toNat_low, Nat.mod_mod]

theorem toNat_ushiftRight_seven (i : UInt t) : (i >>> 7).toNat = i.toNat / 128 := by
  rw [toNat_ushiftRight, Nat.shiftRight_eq_div_pow]

theorem writeVarU_last {i : UInt t} (h : i >>> 7 = 0) (w : Encoder)
    : writeVarU i w = w ++ [(i &&& 0x7f).setWidth 8] := by
  have hnot : ¬ (i >>> 7 ≠ 0) := Classical.not_not.mpr h
  rw [writeVarU, if_neg hnot, if_neg hnot]

theorem writeVarU_more {i : UInt t} (h : i >>> 7 ≠ 0) (w : Encoder)
    : writeVarU i w = writeVarU (i >>> 7) (w ++ [(i &&& 0x7f).setWidth 8 ||| 0x80#8]) := by
  rw [writeVarU, if_pos h, if_pos h]

structure WritesU (i : UInt t) (bytes : List (BitVec 8)) : Prop where
  writes : ∀ w, writeVarU i w = w ++ bytes
  terminated : Terminated bytes
  value : unsignedValue bytes = i.toNat
  length : ∀ k, i.toNat < 128 ^ (k + 1) → bytes.length ≤ k + 1

theorem exists_writesU (i : UInt t) : ∃ bytes, WritesU i bytes := by
  by_cases hlast : i >>> 7 = 0
  . refine ⟨[(i &&& 0x7f).setWidth 8], ?_, more_low i, ?_, ?_⟩
    . intro w
      exact writeVarU_last hlast w
    . have hzero : i.toNat / 128 = 0 := by
        rw [← toNat_ushiftRight_seven, hlast]
        simp
      rw [unsignedValue, unsignedValue, group_low]
      omega
    . intro k _
      exact Nat.succ_le_succ (Nat.zero_le k)
  obtain ⟨bs, hwrites, hterminated, hvalue, hlength⟩ := exists_writesU (i >>> 7)
  refine ⟨((i &&& 0x7f).setWidth 8 ||| 0x80#8) :: bs, ?_, ?_, ?_, ?_⟩
  . intro w
    rw [writeVarU_more hlast, hwrites, List.append_assoc]
    rfl
  . exact (terminated_cons_of_more (more_or _) bs).mpr hterminated
  . rw [unsignedValue, hvalue, group_or, group_low, toNat_ushiftRight_seven]
    omega
  intro k hk
  cases k with
  | zero =>
    exfalso
    apply hlast
    apply eq_of_toNat_eq
    rw [toNat_ushiftRight_seven]
    simp
    omega
  | succ k =>
    rw [List.length_cons]
    apply Nat.succ_le_succ
    apply hlength k
    rw [toNat_ushiftRight_seven]
    rw [Nat.pow_succ] at hk
    exact Nat.div_lt_of_lt_mul (by omega)
termination_by i.toNat
decreasing_by exact toNat_ushiftRight_lt hlast

theorem toNat_emod (i : SInt t) : (i.toNat : Int) % 128 = i.toInt % 128 := by
  rw [toInt_eq_toNat_cond]
  split
  next => rfl
  next =>
    have hpow : ∃ k : Int, ((2 ^ t.numBits : Nat) : Int) = 128 * k := by
      cases t
      . exact ⟨2 ^ 25, by decide⟩
      . exact ⟨2 ^ 57, by decide⟩
    obtain ⟨k, hk⟩ := hpow
    omega

theorem sign_low_iff (i : SInt t) : (i &&& 0x7f).setWidth 8 &&& 0x40#8 = 0#8 ↔ i.toInt % 128 < 64 := by
  have hsign (b : BitVec 8) : b &&& 0x40#8 = 0#8 ↔ group b < 64 := by
    revert b
    decide
  have hemod := toNat_emod i
  rw [hsign, group_low]
  omega

theorem signedGroup_low (i : SInt t)
    : signedGroup ((i &&& 0x7f).setWidth 8) = if i.toInt % 128 < 64 then i.toInt % 128 else i.toInt % 128 - 128 := by
  have hgroup (b : BitVec 8) : signedGroup b = if group b < 64 then (group b : Int) else group b - 128 := by
    revert b
    decide
  have hemod := toNat_emod i
  rw [hgroup, group_low]
  push_cast
  rw [hemod]
  split <;> split <;> omega

theorem toInt_sshiftRight_seven (i : SInt t) : (i.sshiftRight 7).toInt = i.toInt / 128 := by
  rw [toInt_sshiftRight, Int.shiftRight_eq_div_pow]
  rfl

structure WritesS (i : SInt t) (bytes : List (BitVec 8)) : Prop where
  writes : ∀ w, writeVarS i w = w ++ bytes
  terminated : Terminated bytes
  value : signedValue bytes = i.toInt
  length : ∀ k, -64 * 128 ^ k ≤ i.toInt → i.toInt < 64 * 128 ^ k → bytes.length ≤ k + 1

theorem signedValue_cons (h : bs ≠ [])
    : signedValue (b :: bs) = group b + 128 * signedValue bs := by
  cases bs with
  | nil => exact absurd rfl h
  | cons c bs => rfl

theorem writeVarSDone_iff (i : SInt t) (byte : BitVec 8)
    : writeVarSDone i byte = true ↔ i.toInt = if byte &&& 0x40#8 = 0#8 then 0 else -1 := by
  have hzero : i = 0 ↔ i.toInt = 0 := by
    rw [← toInt_inj]
    simp
  have hminus : i = -1 ↔ i.toInt = -1 := by
    rw [← toInt_inj]
    have hone : (-1 : SInt t).toInt = -1 := by
      cases t <;> decide
    rw [hone]
  unfold writeVarSDone
  by_cases h : byte &&& 0x40#8 = 0#8
  . simp only [h, ↓reduceIte]
    simpa using hzero
  . simp only [h, ↓reduceIte]
    simpa [h] using hminus

theorem exists_writesS (i : SInt t) : ∃ bytes, WritesS i bytes := by
  by_cases hdone : writeVarSDone (i.sshiftRight 7) ((i &&& 0x7f).setWidth 8) = true
  . refine ⟨[(i &&& 0x7f).setWidth 8], ?_, more_low i, ?_, ?_⟩
    . intro w
      rw [writeVarS, hdone]
      rfl
    . rw [writeVarSDone_iff, toInt_sshiftRight_seven] at hdone
      simp only [sign_low_iff] at hdone
      rw [signedValue, signedGroup_low]
      split at hdone
      next h =>
        rw [if_pos h]
        omega
      next h =>
        rw [if_neg h]
        omega
    . intro k _ _
      exact Nat.succ_le_succ (Nat.zero_le k)
  rw [Bool.not_eq_true] at hdone
  obtain ⟨bs, hwrites, hterminated, hvalue, hlength⟩ := exists_writesS (i.sshiftRight 7)
  refine ⟨((i &&& 0x7f).setWidth 8 ||| 0x80#8) :: bs, ?_, ?_, ?_, ?_⟩
  . intro w
    rw [writeVarS, hdone, if_pos rfl, if_neg Bool.false_ne_true, hwrites, List.append_assoc]
    rfl
  . exact (terminated_cons_of_more (more_or _) bs).mpr hterminated
  . have hemod := toNat_emod i
    rw [signedValue_cons hterminated.ne_nil, hvalue, group_or, group_low, toInt_sshiftRight_seven]
    push_cast
    omega
  intro k hmin hmax
  cases k with
  | zero =>
    exfalso
    rw [← Bool.not_eq_true, writeVarSDone_iff, toInt_sshiftRight_seven] at hdone
    simp only [sign_low_iff] at hdone
    apply hdone
    split <;> omega
  | succ k =>
    rw [List.length_cons]
    apply Nat.succ_le_succ
    rw [toInt_sshiftRight_seven] at hlength
    rw [pow_succ] at hmin hmax
    apply hlength k
    . omega
    . omega
termination_by signedMagnitude i
decreasing_by exact signedMagnitude_sshiftRight_lt (by simpa using hdone)

theorem writeVarU32_max (w : Encoder) : writeVarU32 (-1) w = w ++ [0xff#8, 0xff#8, 0xff#8, 0xff#8, 0x0f#8] := by
  have hmax : writeVarU (-1 : UInt .bits32) w = w ++ [0xff#8, 0xff#8, 0xff#8, 0xff#8, 0x0f#8] := by
    rw [writeVarU_more (by decide), writeVarU_more (by decide), writeVarU_more (by decide),
      writeVarU_more (by decide), writeVarU_last (by decide)]
    simp only [List.append_assoc, List.cons_append, List.nil_append, List.append_cancel_left_eq]
    decide
  exact hmax

def fixedVarU32 (i : BitVec 32) : List (BitVec 8) :=
  [(i &&& 0x7f).setWidth 8 ||| 0x80#8, (i >>> 7 &&& 0x7f).setWidth 8 ||| 0x80#8,
    (i >>> 14 &&& 0x7f).setWidth 8 ||| 0x80#8, (i >>> 21 &&& 0x7f).setWidth 8 ||| 0x80#8,
    (i >>> 28 &&& 0x7f).setWidth 8]

theorem patchVarU32_more {w rest : List (BitVec 8)} {patchBits assertBits : BitVec 32}
    (hmore : assertBits >>> 7 ≠ 0) (hassert : (assertBits &&& 0x7f).setWidth 8 ||| 0x80#8 = b)
    : patchVarU32 w.length patchBits assertBits (w ++ b :: rest)
        = patchVarU32 (w ++ [(patchBits &&& 0x7f).setWidth 8 ||| 0x80#8]).length (patchBits >>> 7) (assertBits >>> 7)
            (w ++ [(patchBits &&& 0x7f).setWidth 8 ||| 0x80#8] ++ rest) := by
  have hget : (w ++ b :: rest)[w.length]? = some b := by simp
  have hset (x : BitVec 8) : (w ++ b :: rest).set w.length x = w ++ [x] ++ rest := by simp
  rw [patchVarU32, if_pos hmore, if_pos hmore, if_pos hmore, hassert, if_pos hget, hset]
  simp

theorem patchVarU32_last {w rest : List (BitVec 8)} {patchBits assertBits : BitVec 32}
    (hlast : assertBits >>> 7 = 0) (hassert : (assertBits &&& 0x7f).setWidth 8 = b)
    : patchVarU32 w.length patchBits assertBits (w ++ b :: rest)
        = some (w ++ [(patchBits &&& 0x7f).setWidth 8] ++ rest) := by
  have hget : (w ++ b :: rest)[w.length]? = some b := by simp
  have hset (x : BitVec 8) : (w ++ b :: rest).set w.length x = w ++ [x] ++ rest := by simp
  have hnot : ¬ (assertBits >>> 7 ≠ 0) := Classical.not_not.mpr hlast
  rw [patchVarU32, if_neg hnot, if_neg hnot, if_neg hnot, hassert, if_pos hget, hset]

theorem patchVarU32_eq (w rest : List (BitVec 8)) (patchBits : BitVec 32)
    : patchVarU32 w.length patchBits (-1) (w ++ [0xff#8, 0xff#8, 0xff#8, 0xff#8, 0x0f#8] ++ rest)
        = some (w ++ fixedVarU32 patchBits ++ rest) := by
  have hshift (n : Nat) : patchBits >>> n >>> 7 = patchBits >>> (n + 7) := (shiftRight_add _ _ _).symm
  rw [List.append_assoc]
  show patchVarU32 w.length patchBits (-1) (w ++ 0xff#8 :: ([0xff#8, 0xff#8, 0xff#8, 0x0f#8] ++ rest)) = _
  rw [patchVarU32_more (by decide) (by decide)]
  show patchVarU32 _ _ _ (_ ++ 0xff#8 :: ([0xff#8, 0xff#8, 0x0f#8] ++ rest)) = _
  rw [patchVarU32_more (by decide) (by decide)]
  show patchVarU32 _ _ _ (_ ++ 0xff#8 :: ([0xff#8, 0x0f#8] ++ rest)) = _
  rw [patchVarU32_more (by decide) (by decide)]
  show patchVarU32 _ _ _ (_ ++ 0xff#8 :: ([0x0f#8] ++ rest)) = _
  rw [patchVarU32_more (by decide) (by decide)]
  show patchVarU32 _ _ _ (_ ++ 0x0f#8 :: rest) = _
  rw [patchVarU32_last (by decide) (by decide), hshift, hshift, hshift]
  simp [fixedVarU32]

theorem unsignedValue_fixedVarU32 (i : BitVec 32) : unsignedValue (fixedVarU32 i) = i.toNat := by
  have hgroup (n : Nat) : group ((i >>> n &&& 0x7f).setWidth 8) = i.toNat / 2 ^ n % 128 := by
    have hshift : (i >>> n).toNat = i.toNat / 2 ^ n := by
      rw [toNat_ushiftRight, Nat.shiftRight_eq_div_pow]
    exact (group_low (t := .bits32) (i >>> n)).trans (congrArg (· % 128) hshift)
  have hfirst : group ((i &&& 0x7f).setWidth 8) = i.toNat % 128 := group_low (t := .bits32) i
  have hlt := i.isLt
  unfold fixedVarU32
  simp only [unsignedValue, group_or, hgroup, hfirst]
  omega

theorem finishSection_eq (w rest : List (BitVec 8))
    : finishSection (writePatchableVarU32 w).1 ((writePatchableVarU32 w).2 ++ rest)
        = some (w ++ fixedVarU32 (BitVec.ofNat 32 rest.length) ++ rest) := by
  unfold writePatchableVarU32
  rw [writeVarU32_max]
  unfold finishSection
  have hlength : varU32ByteLength w.length (w ++ [0xff#8, 0xff#8, 0xff#8, 0xff#8, 0x0f#8] ++ rest) = 5 := by
    unfold varU32ByteLength
    rw [List.append_assoc, List.drop_left]
    rfl
  have hpayload : (w ++ [0xff#8, 0xff#8, 0xff#8, 0xff#8, 0x0f#8] ++ rest).length - w.length - 5 = rest.length := by
    simp only [List.length_append, List.length_cons, List.length_nil]
    omega
  rw [hlength, hpayload]
  exact patchVarU32_eq w rest _

theorem terminated_fixedVarU32 (i : BitVec 32) : Terminated (fixedVarU32 i) := by
  unfold fixedVarU32
  rw [terminated_cons_of_more (more_or _), terminated_cons_of_more (more_or _), terminated_cons_of_more (more_or _),
    terminated_cons_of_more (more_or _)]
  exact more_low (t := .bits32) (i >>> 28)

end Encoder

theorem readVarU_writeVarU (i : UInt t) (w rest : List (BitVec 8))
    : ∃ bytes, Encoder.writeVarU i w = w ++ bytes
        ∧ Decoder.readVarU t ⟨w ++ bytes ++ rest, w.length, (w ++ bytes ++ rest).length⟩
          = some (i, ⟨w ++ bytes ++ rest, w.length + bytes.length, (w ++ bytes ++ rest).length⟩) := by
  obtain ⟨bytes, hwrites, hterminated, hvalue, hlength⟩ := Encoder.exists_writesU i
  refine ⟨bytes, hwrites w, ?_⟩
  have hroom : i.toNat < 128 ^ (t.numBits / 7 + 1) := by
    have hle : 2 ^ t.numBits ≤ 128 ^ (t.numBits / 7 + 1) := by
      cases t <;> decide
    have := i.isLt
    omega
  have hencoding := Decoder.encoding_append hterminated (hlength _ hroom) w rest
  apply (Decoder.readVarU_eq_some_iff _ _ _ _ _ _).mpr
  refine ⟨bytes, hencoding, ?_, hvalue.symm, rfl⟩
  obtain ⟨init, b, rfl, hinit⟩ := hencoding.exists_concat
  rw [unusedZero_iff hinit, hvalue]
  exact i.isLt

theorem readVarS_writeVarS (i : SInt t) (w rest : List (BitVec 8))
    : ∃ bytes, Encoder.writeVarS i w = w ++ bytes
        ∧ Decoder.readVarS t ⟨w ++ bytes ++ rest, w.length, (w ++ bytes ++ rest).length⟩
          = some (i, ⟨w ++ bytes ++ rest, w.length + bytes.length, (w ++ bytes ++ rest).length⟩) := by
  obtain ⟨bytes, hwrites, hterminated, hvalue, hlength⟩ := Encoder.exists_writesS i
  refine ⟨bytes, hwrites w, ?_⟩
  have hmin : -2 ^ (t.numBits - 1) ≤ i.toInt := by
    have := le_toInt i
    simpa using this
  have hmax : i.toInt < 2 ^ (t.numBits - 1) := by
    have := toInt_lt (x := i)
    simpa using this
  have hroom : (2 : Int) ^ (t.numBits - 1) ≤ 64 * 128 ^ (t.numBits / 7) := by
    cases t <;> decide
  have hencoding := Decoder.encoding_append hterminated (hlength (t.numBits / 7) (by omega) (by omega)) w rest
  apply (Decoder.readVarS_eq_some_iff _ _ _ _ _ _).mpr
  refine ⟨bytes, hencoding, ?_, hvalue.symm, rfl⟩
  obtain ⟨init, b, rfl, hinit⟩ := hencoding.exists_concat
  rw [unusedSign_iff hinit t.remainderBits_pos, hvalue]
  exact ⟨hmin, hmax⟩

theorem readVarU_finishSection (w payload : List (BitVec 8))
    : ∃ bytes length, Encoder.finishSection (Encoder.writePatchableVarU32 w).1
            ((Encoder.writePatchableVarU32 w).2 ++ payload) = some bytes
        ∧ Decoder.readVarU .bits32 ⟨bytes, w.length, bytes.length⟩
          = some (length, ⟨bytes, bytes.length - payload.length, bytes.length⟩)
        ∧ length.toNat = payload.length % 2 ^ 32 := by
  refine ⟨_, BitVec.ofNat 32 payload.length, Encoder.finishSection_eq w payload, ?_, toNat_ofNat _ _⟩
  generalize BitVec.ofNat 32 payload.length = n
  have hlength : (Encoder.fixedVarU32 n).length = 5 := rfl
  have hencoding := Decoder.encoding_append (t := .bits32) (Encoder.terminated_fixedVarU32 n) (Nat.le_of_eq hlength) w payload
  apply (Decoder.readVarU_eq_some_iff _ _ _ _ _ _).mpr
  refine ⟨Encoder.fixedVarU32 n, hencoding, ?_, (Encoder.unsignedValue_fixedVarU32 n).symm, ?_⟩
  . obtain ⟨init, b, heq, hinit⟩ := hencoding.exists_concat
    have hvalue := Encoder.unsignedValue_fixedVarU32 n
    rw [heq] at hvalue ⊢
    rw [unusedZero_iff hinit, hvalue]
    exact n.isLt
  . congr 1
    rw [List.length_append, List.length_append]
    omega

theorem varInt_exact
    : (∀ (t : IntSize) (i : UInt t) (w rest : List (BitVec 8)), ∃ bytes, Encoder.writeVarU i w = w ++ bytes
          ∧ Decoder.readVarU t ⟨w ++ bytes ++ rest, w.length, (w ++ bytes ++ rest).length⟩
            = some (i, ⟨w ++ bytes ++ rest, w.length + bytes.length, (w ++ bytes ++ rest).length⟩))
      ∧ (∀ (t : IntSize) (i : SInt t) (w rest : List (BitVec 8)), ∃ bytes, Encoder.writeVarS i w = w ++ bytes
          ∧ Decoder.readVarS t ⟨w ++ bytes ++ rest, w.length, (w ++ bytes ++ rest).length⟩
            = some (i, ⟨w ++ bytes ++ rest, w.length + bytes.length, (w ++ bytes ++ rest).length⟩))
      ∧ (∀ (t : IntSize) (data : List (BitVec 8)) (pos stop : Nat) (v : UInt t) (c : Cursor),
          Decoder.readVarU t ⟨data, pos, stop⟩ = some (v, c)
            ↔ ∃ bytes, Decoder.Encoding t data pos stop bytes ∧ UnusedZero t.numBits bytes
              ∧ v.toNat = unsignedValue bytes ∧ c = ⟨data, pos + bytes.length, stop⟩)
      ∧ (∀ (t : IntSize) (data : List (BitVec 8)) (pos stop : Nat) (v : SInt t) (c : Cursor),
          Decoder.readVarS t ⟨data, pos, stop⟩ = some (v, c)
            ↔ ∃ bytes, Decoder.Encoding t data pos stop bytes ∧ UnusedSign t.numBits bytes
              ∧ v.toInt = signedValue bytes ∧ c = ⟨data, pos + bytes.length, stop⟩)
      ∧ (∀ (t : IntSize) (c c' : Cursor) (v : UInt t), Decoder.readVarU t c = some (v, c') →
          Decoder.uncheckedReadVarU t c = some (v, c'))
      ∧ (∀ (w payload : List (BitVec 8)), ∃ bytes length, Encoder.finishSection (Encoder.writePatchableVarU32 w).1
              ((Encoder.writePatchableVarU32 w).2 ++ payload) = some bytes
            ∧ Decoder.readVarU .bits32 ⟨bytes, w.length, bytes.length⟩
              = some (length, ⟨bytes, bytes.length - payload.length, bytes.length⟩)
            ∧ length.toNat = payload.length % 2 ^ 32) := by
  refine ⟨?_, ?_, ?_, ?_, ?_, ?_⟩
  . intro t i w rest
    exact readVarU_writeVarU i w rest
  . intro t i w rest
    exact readVarS_writeVarS i w rest
  . exact Decoder.readVarU_eq_some_iff
  . exact Decoder.readVarS_eq_some_iff
  . intro t c c' v h
    exact Decoder.uncheckedReadVarUFrom_of_readVarUFrom h
  . exact readVarU_finishSection

theorem finishSection_truncates
    : ¬ ∀ (w payload : List (BitVec 8)), ∃ bytes length, Encoder.finishSection (Encoder.writePatchableVarU32 w).1
            ((Encoder.writePatchableVarU32 w).2 ++ payload) = some bytes
          ∧ Decoder.readVarU .bits32 ⟨bytes, w.length, bytes.length⟩
            = some (length, ⟨bytes, bytes.length - payload.length, bytes.length⟩)
          ∧ length.toNat = payload.length := by
  intro hclaim
  obtain ⟨bytes, length, _, _, hlength⟩ := hclaim [] (List.replicate (2 ^ 32) 0#8)
  have hlt := length.isLt
  have hbits : IntSize.bits32.numBits = 32 := rfl
  rw [hlength, List.length_replicate, hbits] at hlt
  exact Nat.lt_irrefl _ hlt

end SpiderMonkey.Wasm
