import Mathlib.Algebra.Order.Ring.Int
import SpiderMonkey.Lib.ByteStream

/-!
This module contains integers as little endian groups of seven bits, of which every byte but the last one has its
high bit set.
-/

namespace Leb128

open ByteStream

def more (b : BitVec 8) : Bool := b &&& 0x80#8 != 0#8

def group (b : BitVec 8) : Nat := b.toNat % 128

def signedGroup (b : BitVec 8) : Int := (b.setWidth 7).toInt

def Terminated : List (BitVec 8) → Prop
  | [] => False
  | [b] => more b = false
  | b :: bs => more b = true ∧ Terminated bs

def unsignedValue : List (BitVec 8) → Nat
  | [] => 0
  | b :: bs => group b + 128 * unsignedValue bs

def signedValue : List (BitVec 8) → Int
  | [] => 0
  | [b] => signedGroup b
  | b :: bs => group b + 128 * signedValue bs

def take : Nat → Reader (List (BitVec 8))
  | 0 => failure
  | max + 1 => do
    let b ← byte
    if more b then
      let bs ← take max
      return b :: bs
    else return [b]

theorem group_lt (b : BitVec 8) : group b < 128 := Nat.mod_lt _ (by decide)

theorem signedGroup_eq (b : BitVec 8)
    : signedGroup b = group b - if b.getLsbD 6 then 128 else 0 := by
  revert b
  decide

theorem Terminated.ne_nil {bytes : List (BitVec 8)} (h : Terminated bytes) : bytes ≠ [] := by
  rintro rfl
  exact h

theorem terminated_cons_of_more {b : BitVec 8} (h : more b = true) (bs : List (BitVec 8))
    : Terminated (b :: bs) ↔ Terminated bs := by
  cases bs with
  | nil =>
    unfold Terminated
    rw [h]
    simp
  | cons c bs =>
    rw [Terminated, h]
    . simp
    . simp

theorem terminated_cons_of_not_more {b : BitVec 8} (h : more b = false) (bs : List (BitVec 8))
    : Terminated (b :: bs) ↔ bs = [] := by
  cases bs with
  | nil =>
    unfold Terminated
    simp [h]
  | cons c bs =>
    unfold Terminated
    simp [h]

theorem unsignedValue_lt (bytes : List (BitVec 8)) : unsignedValue bytes < 128 ^ bytes.length := by
  induction bytes with
  | nil => exact Nat.one_pos
  | cons b bs ih =>
    have hgroup := group_lt b
    rw [List.length_cons, Nat.pow_succ]
    unfold unsignedValue
    omega

theorem unsignedValue_concat (bytes : List (BitVec 8)) (b : BitVec 8)
    : unsignedValue (bytes ++ [b]) = unsignedValue bytes + 128 ^ bytes.length * group b := by
  induction bytes with
  | nil => simp [unsignedValue]
  | cons c bs ih =>
    rw [List.cons_append, unsignedValue, ih, unsignedValue, List.length_cons, Nat.pow_succ]
    have hmul : 128 * (128 ^ bs.length * group b) = 128 ^ bs.length * 128 * group b := by
      rw [← Nat.mul_assoc, Nat.mul_comm 128]
    omega

theorem signedValue_concat (bytes : List (BitVec 8)) (b : BitVec 8)
    : signedValue (bytes ++ [b]) = unsignedValue bytes + 128 ^ bytes.length * signedGroup b := by
  induction bytes with
  | nil => simp [signedValue, unsignedValue]
  | cons c bs ih =>
    have hcons : signedValue (c :: bs ++ [b]) = group c + 128 * signedValue (bs ++ [b]) := by
      cases bs <;> rfl
    rw [hcons, ih, unsignedValue, List.length_cons, Int.pow_succ]
    have hmul : 128 * (128 ^ bs.length * signedGroup b) = 128 ^ bs.length * 128 * signedGroup b := by
      rw [← Int.mul_assoc, Int.mul_comm 128]
    omega

theorem signedValue_eq (bytes : List (BitVec 8)) (b : BitVec 8)
    : signedValue (bytes ++ [b])
        = unsignedValue (bytes ++ [b]) - if b.getLsbD 6 then 128 ^ (bytes.length + 1) else 0 := by
  rw [signedValue_concat, unsignedValue_concat, signedGroup_eq]
  cases b.getLsbD 6 with
  | true =>
    rw [if_pos rfl, if_pos rfl, Int.pow_succ, Int.mul_sub]
    push_cast
    omega
  | false =>
    rw [if_neg Bool.false_ne_true, if_neg Bool.false_ne_true, Int.sub_zero, Int.sub_zero]
    push_cast
    omega

theorem exists_take_iff {max : Nat} {c c' : Cursor} {P : List (BitVec 8) → Prop}
    : (∃ bytes, take (max + 1) c = some (bytes, c') ∧ P bytes) ↔ ∃ b c₁, byte c = some (b, c₁)
          ∧ if more b then ∃ bs, take max c₁ = some (bs, c') ∧ P (b :: bs) else P [b] ∧ c' = c₁ := by
  constructor
  . rintro ⟨bytes, htake, hP⟩
    obtain ⟨b, c₁, hbyte, hrest⟩ := bind_eq_some_iff.mp htake
    refine ⟨b, c₁, hbyte, ?_⟩
    split at hrest
    next hmore =>
      obtain ⟨bs, _, htake, hpure⟩ := bind_eq_some_iff.mp hrest
      cases hpure
      rw [if_pos hmore]
      exact ⟨bs, htake, hP⟩
    next hmore =>
      cases hrest
      rw [if_neg hmore]
      exact ⟨hP, rfl⟩
  . rintro ⟨b, c₁, hbyte, hrest⟩
    split at hrest
    next hmore =>
      obtain ⟨bs, htake, hP⟩ := hrest
      refine ⟨_, bind_eq_some_iff.mpr ⟨b, c₁, hbyte, ?_⟩, hP⟩
      rw [if_pos hmore]
      exact bind_eq_some_iff.mpr ⟨bs, c', htake, rfl⟩
    next hmore =>
      obtain ⟨hP, rfl⟩ := hrest
      refine ⟨_, bind_eq_some_iff.mpr ⟨b, c', hbyte, ?_⟩, hP⟩
      rw [if_neg hmore]
      rfl

theorem byte_bind_eq_some_iff {α : Type} {k : BitVec 8 → Reader α} {max : Nat} {v : α}
    {P : List (BitVec 8) → Prop}
    (hmore : ∀ b c₁, more b = true → (k b c₁ = some (v, c') ↔ ∃ bs, take max c₁ = some (bs, c') ∧ P (b :: bs)))
    (hlast : ∀ b c₁, more b = false → (k b c₁ = some (v, c') ↔ P [b] ∧ c' = c₁))
    : (byte >>= k) c = some (v, c') ↔ ∃ bytes, take (max + 1) c = some (bytes, c') ∧ P bytes := by
  rw [exists_take_iff, bind_eq_some_iff]
  apply exists_congr
  intro b
  apply exists_congr
  intro c₁
  apply and_congr_right
  intro _
  cases h : more b with
  | true => exact hmore b c₁ h
  | false => exact hlast b c₁ h

theorem take_eq_some_iff (max : Nat) (data : List (BitVec 8)) (pos stop : Nat) (bytes : List (BitVec 8)) (c : Cursor)
    : take max ⟨data, pos, stop⟩ = some (bytes, c)
        ↔ Terminated bytes ∧ bytes.length ≤ max ∧ At data pos bytes ∧ pos + bytes.length ≤ stop
          ∧ c = ⟨data, pos + bytes.length, stop⟩ := by
  induction max generalizing pos bytes c with
  | zero =>
    constructor
    . intro h
      cases h
    . rintro ⟨hterminated, hlength, _⟩
      exact absurd (List.length_eq_zero_iff.mp (Nat.le_zero.mp hlength)) hterminated.ne_nil
  | succ max ih =>
    have hiff := @exists_take_iff max ⟨data, pos, stop⟩ c (bytes = ·)
    rw [exists_eq_right'] at hiff
    rw [hiff]
    constructor
    . rintro ⟨b, c', hbyte, hrest⟩
      obtain ⟨hlt, hget, rfl⟩ := byte_eq_some_iff.mp hbyte
      split at hrest
      next hmore =>
        obtain ⟨bs, htake, rfl⟩ := hrest
        obtain ⟨hterminated, hlength, hat, hstop, rfl⟩ := (ih _ _ _).mp htake
        rw [List.length_cons]
        refine ⟨(terminated_cons_of_more hmore bs).mpr hterminated, by omega, at_cons.mpr ⟨hget, hat⟩, by omega, ?_⟩
        rw [Nat.add_assoc, Nat.add_comm 1]
      next hmore =>
        obtain ⟨rfl, rfl⟩ := hrest
        rw [Bool.not_eq_true] at hmore
        exact ⟨hmore, Nat.succ_le_succ (Nat.zero_le max), at_cons.mpr ⟨hget, at_nil⟩, hlt, rfl⟩
    rintro ⟨hterminated, hlength, hat, hstop, rfl⟩
    cases bytes with
    | nil => exact absurd rfl hterminated.ne_nil
    | cons b bs =>
      obtain ⟨hget, hat⟩ := at_cons.mp hat
      rw [List.length_cons] at hlength hstop ⊢
      refine ⟨b, ⟨data, pos + 1, stop⟩, byte_eq_some_iff.mpr ⟨by omega, hget, rfl⟩, ?_⟩
      split
      next hmore =>
        rw [terminated_cons_of_more hmore] at hterminated
        refine ⟨bs, (ih _ _ _).mpr ⟨hterminated, by omega, hat, by omega, ?_⟩, rfl⟩
        rw [Nat.add_assoc, Nat.add_comm 1]
      next hmore =>
        rw [Bool.not_eq_true] at hmore
        rw [terminated_cons_of_not_more hmore] at hterminated
        subst hterminated
        exact ⟨rfl, rfl⟩

def bit (bytes : List (BitVec 8)) (i : Nat) : Bool := (bytes[i / 7]?.getD 0#8).getLsbD (i % 7)

def UnusedZero (n : Nat) (bytes : List (BitVec 8)) : Prop :=
  ∀ i, n ≤ i → i < 7 * bytes.length → bit bytes i = false

def UnusedSign (n : Nat) (bytes : List (BitVec 8)) : Prop :=
  ∀ i, n ≤ i → i < 7 * bytes.length → bit bytes i = bit bytes (n - 1)

theorem bit_concat (bytes : List (BitVec 8)) (b : BitVec 8) (h : j < 7)
    : bit (bytes ++ [b]) (7 * bytes.length + j) = b.getLsbD j := by
  unfold bit
  rw [show (7 * bytes.length + j) / 7 = bytes.length by omega, show (7 * bytes.length + j) % 7 = j by omega,
    List.getElem?_concat_length]
  rfl

theorem group_lt_iff (b : BitVec 8) {r : Nat} (hr : r < 7)
    : group b < 2 ^ r ↔ ∀ j, j < 7 → r ≤ j → b.getLsbD j = false := by
  revert b r
  decide

theorem signedGroup_lt_iff (b : BitVec 8) {r : Nat} (hr : r < 7) (hpositive : 0 < r)
    : -2 ^ (r - 1) ≤ signedGroup b ∧ signedGroup b < 2 ^ (r - 1)
        ↔ ∀ j, j < 7 → r ≤ j → b.getLsbD j = b.getLsbD (r - 1) := by
  revert b r
  decide

section Unused

variable {n : Nat} {bytes : List (BitVec 8)} {b : BitVec 8}

theorem unusedZero_concat_iff (h : bytes.length ≤ n / 7)
    : UnusedZero n (bytes ++ [b]) ↔ (bytes.length = n / 7 → ∀ j, j < 7 → n % 7 ≤ j → b.getLsbD j = false) := by
  unfold UnusedZero
  rw [List.length_append, List.length_singleton]
  constructor
  . intro hzero hlength j hj hr
    rw [← bit_concat bytes b hj]
    exact hzero _ (by omega) (by omega)
  intro hlast i hi hlt
  have hlength : bytes.length = n / 7 := by omega
  have hbit := hlast hlength (i - 7 * bytes.length) (by omega) (by omega)
  rw [← bit_concat bytes b (by omega), show 7 * bytes.length + (i - 7 * bytes.length) = i by omega] at hbit
  exact hbit

theorem unusedSign_concat_iff (h : bytes.length ≤ n / 7) (hpositive : 0 < n % 7)
    : UnusedSign n (bytes ++ [b])
        ↔ (bytes.length = n / 7 → ∀ j, j < 7 → n % 7 ≤ j → b.getLsbD j = b.getLsbD (n % 7 - 1)) := by
  have hsign (hlength : bytes.length = n / 7) : bit (bytes ++ [b]) (n - 1) = b.getLsbD (n % 7 - 1) := by
    rw [← bit_concat bytes b (show n % 7 - 1 < 7 by omega)]
    congr 1
    omega
  unfold UnusedSign
  rw [List.length_append, List.length_singleton]
  constructor
  . intro hall hlength j hj hr
    rw [← bit_concat bytes b hj, ← hsign hlength]
    exact hall _ (by omega) (by omega)
  intro hlast i hi hlt
  have hlength : bytes.length = n / 7 := by omega
  have hbit := hlast hlength (i - 7 * bytes.length) (by omega) (by omega)
  rw [← bit_concat bytes b (by omega), show 7 * bytes.length + (i - 7 * bytes.length) = i by omega,
    ← hsign hlength] at hbit
  exact hbit

theorem two_pow_eq (n : Nat) : 2 ^ n = 128 ^ (n / 7) * 2 ^ (n % 7) := by
  rw [show 128 = 2 ^ 7 by rfl, ← Nat.pow_mul, ← Nat.pow_add, Nat.div_add_mod]

theorem unusedZero_iff (h : bytes.length ≤ n / 7)
    : UnusedZero n (bytes ++ [b]) ↔ unsignedValue (bytes ++ [b]) < 2 ^ n := by
  have hlow := unsignedValue_lt bytes
  rw [unusedZero_concat_iff h, unsignedValue_concat, two_pow_eq]
  by_cases hlength : bytes.length = n / 7
  . rw [← hlength, ← group_lt_iff b (Nat.mod_lt n (by decide))]
    have hpos : 0 < 128 ^ bytes.length := by omega
    have hiff : unsignedValue bytes + 128 ^ bytes.length * group b < 128 ^ bytes.length * 2 ^ (n % 7)
        ↔ group b < 2 ^ (n % 7) := by
      rw [Nat.mul_comm _ (2 ^ (n % 7)), ← Nat.div_lt_iff_lt_mul hpos, Nat.add_mul_div_left _ _ hpos,
        Nat.div_eq_of_lt hlow, Nat.zero_add]
    rw [hiff]
    simp
  have hgroup := group_lt b
  have hnext : unsignedValue bytes + 128 ^ bytes.length * group b < 128 ^ (bytes.length + 1) := by
    have hle := Nat.mul_le_mul_left (128 ^ bytes.length) (Nat.le_of_lt_succ hgroup)
    rw [Nat.pow_succ]
    omega
  have hmono : 128 ^ (bytes.length + 1) ≤ 128 ^ (n / 7) := Nat.pow_le_pow_right (by decide) (by omega)
  have hmul := Nat.le_mul_of_pos_right (128 ^ (n / 7)) (Nat.pow_pos (n := n % 7) (show 0 < 2 by decide))
  constructor
  . intro _
    omega
  . intro _ heq
    exact absurd heq hlength

theorem add_mul_lt_mul_iff {low p s q : Int} (hlow : 0 ≤ low) (hlt : low < p)
    : low + p * s < p * q ↔ s < q := by
  have hpos : 0 < p := by omega
  constructor
  . intro h
    apply lt_of_mul_lt_mul_left (a := p) _ (by omega)
    omega
  intro h
  have hle := mul_le_mul_of_nonneg_left (show s + 1 ≤ q by omega) (show 0 ≤ p by omega)
  rw [Int.mul_add, Int.mul_one] at hle
  omega

theorem signedGroup_bounds (b : BitVec 8) : -64 ≤ signedGroup b ∧ signedGroup b < 64 := by
  revert b
  decide

theorem unusedSign_iff (h : bytes.length ≤ n / 7) (hpositive : 0 < n % 7)
    : UnusedSign n (bytes ++ [b])
        ↔ -2 ^ (n - 1) ≤ signedValue (bytes ++ [b]) ∧ signedValue (bytes ++ [b]) < 2 ^ (n - 1) := by
  have hlow : (unsignedValue bytes : Int) < 128 ^ bytes.length := by exact_mod_cast unsignedValue_lt bytes
  have hnonneg : (0 : Int) ≤ unsignedValue bytes := by omega
  have hpow : (2 : Int) ^ (n - 1) = 128 ^ (n / 7) * 2 ^ (n % 7 - 1) := by
    rw [show (128 : Int) = 2 ^ 7 by rfl, ← pow_mul, ← pow_add]
    congr 1
    omega
  have hle (q : Int) : 128 ^ bytes.length * q ≤ unsignedValue bytes + 128 ^ bytes.length * signedGroup b
      ↔ q ≤ signedGroup b := by
    rw [← not_lt, add_mul_lt_mul_iff hnonneg hlow, not_lt]
  rw [unusedSign_concat_iff h hpositive, signedValue_concat, hpow]
  by_cases hlength : bytes.length = n / 7
  . rw [← hlength, ← mul_neg, hle, add_mul_lt_mul_iff hnonneg hlow,
      signedGroup_lt_iff b (Nat.mod_lt n (by decide)) hpositive]
    simp
  have hbounds := signedGroup_bounds b
  have hmin := (hle (-64)).mpr hbounds.1
  have hmax := (add_mul_lt_mul_iff (q := 64) hnonneg hlow).mpr hbounds.2
  have hroom : (128 : Int) ^ bytes.length * 64 ≤ 128 ^ (n / 7) * 2 ^ (n % 7 - 1) := by
    rw [← hpow, show (128 : Int) = 2 ^ 7 by rfl, show (64 : Int) = 2 ^ 6 by rfl, ← pow_mul, ← pow_add]
    exact pow_le_pow_right₀ (by decide) (by omega)
  constructor
  . intro _
    omega
  . intro _ heq
    exact absurd heq hlength

end Unused

end Leb128
