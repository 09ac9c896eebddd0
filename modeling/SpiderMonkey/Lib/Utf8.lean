import Mathlib.Data.List.Infix

/-!
This module contains the encodings of code points by bytes and by 16-bit units, and what it means that a
sequence of bytes is decoded when parts of it may be ill-formed.
-/

namespace Utf8

open List

def encode (c : Nat) : List (BitVec 8) :=
  if c < 0x80 then [.ofNat 8 c]
  else if c < 0x800 then [.ofNat 8 (0xC0 + c / 64), .ofNat 8 (0x80 + c % 64)]
  else if c < 0x10000 then
    [.ofNat 8 (0xE0 + c / 4096), .ofNat 8 (0x80 + c / 64 % 64), .ofNat 8 (0x80 + c % 64)]
  else
    [.ofNat 8 (0xF0 + c / 262144), .ofNat 8 (0x80 + c / 4096 % 64), .ofNat 8 (0x80 + c / 64 % 64),
      .ofNat 8 (0x80 + c % 64)]

def utf16 (c : Nat) : List (BitVec 16) :=
  if c < 0x10000 then [.ofNat 16 c]
  else [.ofNat 16 (0xD800 + (c - 0x10000) / 1024), .ofNat 16 (0xDC00 + (c - 0x10000) % 1024)]

def IsCodePoint (c : Nat) : Prop := c ≤ 0x10FFFF

def IsScalarValue (c : Nat) : Prop := c ≤ 0x10FFFF ∧ ¬(0xD800 ≤ c ∧ c ≤ 0xDFFF)

-- A high surrogate and a low one after it stand for one code point, and are encoded as that one.
def NoSurrogatePair (cs : List Nat) : Prop :=
  ∀ high low, 0xD800 ≤ high → high ≤ 0xDBFF → 0xDC00 ≤ low → low ≤ 0xDFFF → ¬[high, low] <:+: cs

section

variable (P : Nat → Prop)

-- The code points that are allowed have to satisfy `P`.
def WellFormed (bytes : List (BitVec 8)) : Prop :=
  ∃ cs : List Nat, (∀ c ∈ cs, P c) ∧ bytes = cs.flatMap encode

def Begins (bytes : List (BitVec 8)) : Prop := ∃ c, P c ∧ encode c <+: bytes

-- Every well-formed sequence is decoded, and for the others there is a replacement. Within an ill-formed
-- sequence no well-formed one begins.
inductive Decodes (replacement : BitVec 16) : List (BitVec 8) → List (BitVec 16) → Prop where
  | nil : Decodes replacement [] []
  | good {c : Nat} {bytes : List (BitVec 8)} {units : List (BitVec 16)}
    : P c → Decodes replacement bytes units → Decodes replacement (encode c ++ bytes) (utf16 c ++ units)
  | bad {ill bytes : List (BitVec 8)} {units : List (BitVec 16)}
    : ill ≠ [] → (∀ k < ill.length, ¬Begins P ((ill ++ bytes).drop k)) → Decodes replacement bytes units
      → Decodes replacement (ill ++ bytes) (replacement :: units)

end

section Bytes

variable {c : Nat} {b : BitVec 8} {bytes : List (BitVec 8)}

theorem toNat_ofNat_byte (h : n < 256) : (BitVec.ofNat 8 n).toNat = n := by
  rw [BitVec.toNat_ofNat]
  exact Nat.mod_eq_of_lt h

theorem toNat_ofNat_unit (h : n < 65536) : (BitVec.ofNat 16 n).toNat = n := by
  rw [BitVec.toNat_ofNat]
  exact Nat.mod_eq_of_lt h

theorem encode_of_ascii (h : c < 0x80) : encode c = [.ofNat 8 c] := if_pos h

theorem encode_ne_nil : encode c ≠ [] := by
  unfold encode
  split
  . exact nofun
  split
  . exact nofun
  . split <;> exact nofun

theorem utf16_ne_nil : utf16 c ≠ [] := by
  unfold utf16
  split <;> exact nofun

def IsContinuation (b : BitVec 8) : Prop := 0x80 ≤ b.toNat ∧ b.toNat < 0xC0

def value₂ (b b₁ : BitVec 8) : Nat := (b.toNat - 0xC0) * 64 + (b₁.toNat - 0x80)
def value₃ (b b₁ b₂ : BitVec 8) : Nat :=
  (b.toNat - 0xE0) * 4096 + (b₁.toNat - 0x80) * 64 + (b₂.toNat - 0x80)
def value₄ (b b₁ b₂ b₃ : BitVec 8) : Nat :=
  (b.toNat - 0xF0) * 262144 + (b₁.toNat - 0x80) * 4096 + (b₂.toNat - 0x80) * 64 + (b₃.toNat - 0x80)

variable {b₁ b₂ b₃ : BitVec 8}

theorem encode_toNat (h : b.toNat < 0x80) : encode b.toNat = [b] := by
  rw [encode_of_ascii h, BitVec.ofNat_toNat, BitVec.setWidth_eq]

theorem eq_ofNat_byte (h : b.toNat = n) : BitVec.ofNat 8 n = b := by
  rw [← h, BitVec.ofNat_toNat, BitVec.setWidth_eq]

theorem encode_value₂ (h : 0xC0 ≤ b.toNat ∧ b.toNat < 0xE0) (h₁ : IsContinuation b₁) (hmin : 0x80 ≤ value₂ b b₁)
    : encode (value₂ b b₁) = [b, b₁] := by
  unfold IsContinuation at h₁
  unfold value₂ at *
  unfold encode
  rw [if_neg (by omega), if_pos (by omega), @eq_ofNat_byte b _ (by omega), @eq_ofNat_byte b₁ _ (by omega)]

theorem encode_value₃ (h : 0xE0 ≤ b.toNat ∧ b.toNat < 0xF0) (h₁ : IsContinuation b₁) (h₂ : IsContinuation b₂)
    (hmin : 0x800 ≤ value₃ b b₁ b₂) : encode (value₃ b b₁ b₂) = [b, b₁, b₂] := by
  unfold IsContinuation at h₁ h₂
  unfold value₃ at *
  unfold encode
  rw [if_neg (by omega), if_neg (by omega), if_pos (by omega), @eq_ofNat_byte b _ (by omega),
    @eq_ofNat_byte b₁ _ (by omega), @eq_ofNat_byte b₂ _ (by omega)]

theorem encode_value₄ (h : 0xF0 ≤ b.toNat ∧ b.toNat < 0xF8) (h₁ : IsContinuation b₁) (h₂ : IsContinuation b₂)
    (h₃ : IsContinuation b₃) (hmin : 0x10000 ≤ value₄ b b₁ b₂ b₃)
    : encode (value₄ b b₁ b₂ b₃) = [b, b₁, b₂, b₃] := by
  unfold IsContinuation at h₁ h₂ h₃
  unfold value₄ at *
  unfold encode
  rw [if_neg (by omega), if_neg (by omega), if_neg (by omega), @eq_ofNat_byte b _ (by omega),
    @eq_ofNat_byte b₁ _ (by omega), @eq_ofNat_byte b₂ _ (by omega), @eq_ofNat_byte b₃ _ (by omega)]

theorem encode_prefix_cases (hc : c ≤ 0x10FFFF) (h : encode c <+: b :: bytes)
    : b.toNat < 0x80 ∧ c = b.toNat
      ∨ (0xC0 ≤ b.toNat ∧ b.toNat < 0xE0 ∧ ∃ b₁ rest, bytes = b₁ :: rest ∧ IsContinuation b₁
        ∧ c = value₂ b b₁ ∧ 0x80 ≤ c)
      ∨ (0xE0 ≤ b.toNat ∧ b.toNat < 0xF0 ∧ ∃ b₁ b₂ rest, bytes = b₁ :: b₂ :: rest ∧ IsContinuation b₁
        ∧ IsContinuation b₂ ∧ c = value₃ b b₁ b₂ ∧ 0x800 ≤ c)
      ∨ (0xF0 ≤ b.toNat ∧ b.toNat < 0xF8 ∧ ∃ b₁ b₂ b₃ rest, bytes = b₁ :: b₂ :: b₃ :: rest ∧ IsContinuation b₁
        ∧ IsContinuation b₂ ∧ IsContinuation b₃ ∧ c = value₄ b b₁ b₂ b₃ ∧ 0x10000 ≤ c) := by
  unfold IsContinuation value₂ value₃ value₄
  obtain ⟨rest, h⟩ := h
  unfold encode at h
  split at h
  . left
    cases h
    rw [toNat_ofNat_byte (by omega)]
    omega
  right
  split at h
  . left
    cases h
    refine ⟨?_, ?_, _, _, rfl, ?_⟩
    . rw [toNat_ofNat_byte (by omega)]
      omega
    . rw [toNat_ofNat_byte (by omega)]
      omega
    . rw [toNat_ofNat_byte (by omega), toNat_ofNat_byte (by omega)]
      omega
  right
  split at h
  . left
    cases h
    refine ⟨?_, ?_, _, _, _, rfl, ?_⟩
    . rw [toNat_ofNat_byte (by omega)]
      omega
    . rw [toNat_ofNat_byte (by omega)]
      omega
    . rw [toNat_ofNat_byte (by omega), toNat_ofNat_byte (by omega), toNat_ofNat_byte (by omega)]
      omega
  right
  cases h
  refine ⟨?_, ?_, _, _, _, _, rfl, ?_⟩
  . rw [toNat_ofNat_byte (by omega)]
    omega
  . rw [toNat_ofNat_byte (by omega)]
    omega
  . rw [toNat_ofNat_byte (by omega), toNat_ofNat_byte (by omega), toNat_ofNat_byte (by omega),
      toNat_ofNat_byte (by omega)]
    omega

theorem not_begins_of_continuation {P : Nat → Prop} (hP : ∀ c, P c → c ≤ 0x10FFFF) (h : IsContinuation b)
    : ¬Begins P (b :: bytes) := by
  rintro ⟨c, hc, hstart⟩
  unfold IsContinuation at h
  rcases encode_prefix_cases (hP c hc) hstart with h' | h' | h' | h' <;> omega

theorem encode_prefix_unique {bytes : List (BitVec 8)} (hc : c ≤ 0x10FFFF) (hc' : c' ≤ 0x10FFFF)
    (h : encode c <+: bytes) (h' : encode c' <+: bytes) : c = c' := by
  cases bytes with
  | nil => exact absurd (prefix_nil.mp h) encode_ne_nil
  | cons b bytes =>
    rcases encode_prefix_cases hc h with ⟨h, hv⟩ | ⟨h₁, h₂, _, _, rfl, -, hv, -⟩
        | ⟨h₁, h₂, _, _, _, rfl, -, -, hv, -⟩ | ⟨h₁, h₂, _, _, _, _, rfl, -, -, -, hv, -⟩
    . rcases encode_prefix_cases hc' h' with ⟨-, hv'⟩ | ⟨h', -⟩ | ⟨h', -⟩ | ⟨h', -⟩
      . exact hv.trans hv'.symm
      . omega
      . omega
      . omega
    . rcases encode_prefix_cases hc' h' with ⟨h', -⟩ | ⟨-, -, _, _, heq, -, hv', -⟩ | ⟨h', -⟩ | ⟨h', -⟩
      . omega
      . cases heq
        exact hv.trans hv'.symm
      . omega
      . omega
    . rcases encode_prefix_cases hc' h' with ⟨h', -⟩ | ⟨-, h', -⟩ | ⟨-, -, _, _, _, heq, -, -, hv', -⟩ | ⟨h', -⟩
      . omega
      . omega
      . cases heq
        exact hv.trans hv'.symm
      . omega
    . rcases encode_prefix_cases hc' h' with ⟨h', -⟩ | ⟨-, h', -⟩ | ⟨-, h', -⟩
          | ⟨-, -, _, _, _, _, heq, -, -, -, hv', -⟩
      . omega
      . omega
      . omega
      . cases heq
        exact hv.trans hv'.symm

theorem not_isContinuation_head (hc : c ≤ 0x10FFFF) (h : 0 < (encode c).length) : ¬IsContinuation (encode c)[0] := by
  intro hcont
  have hbegins : Begins (· ≤ 0x10FFFF) ((encode c)[0] :: (encode c).drop 1) := by
    rw [cons_getElem_drop_succ]
    exact ⟨c, hc, prefix_rfl⟩
  exact not_begins_of_continuation (fun _ hle => hle) hcont hbegins

theorem isContinuation_of_mem_tail (hb : b ∈ (encode c).tail) : IsContinuation b := by
  unfold IsContinuation
  unfold encode at hb
  split at hb
  . cases hb
  split at hb
  . rw [tail_cons, mem_singleton] at hb
    rw [hb, toNat_ofNat_byte (by omega)]
    omega
  split at hb
  . simp only [tail_cons, mem_cons, not_mem_nil, or_false] at hb
    rcases hb with rfl | rfl
    . rw [toNat_ofNat_byte (by omega)]
      omega
    . rw [toNat_ofNat_byte (by omega)]
      omega
  simp only [tail_cons, mem_cons, not_mem_nil, or_false] at hb
  rcases hb with rfl | rfl | rfl
  . rw [toNat_ofNat_byte (by omega)]
    omega
  . rw [toNat_ofNat_byte (by omega)]
    omega
  . rw [toNat_ofNat_byte (by omega)]
    omega

theorem utf16_toNat_lt {bound : Nat} (hbound : bound ≤ 0x10000) (h : c < bound) : ∀ u ∈ utf16 c, u.toNat < bound := by
  unfold utf16
  rw [if_pos (by omega)]
  intro u hu
  rw [mem_singleton.mp hu, toNat_ofNat_unit (by omega)]
  exact h

theorem le_utf16_toNat {bound : Nat} (hbound : bound ≤ 0xD800) (hc : c ≤ 0x10FFFF) (h : bound ≤ c)
    : ∀ u ∈ utf16 c, bound ≤ u.toNat := by
  unfold utf16
  split
  . intro u hu
    rw [mem_singleton.mp hu, toNat_ofNat_unit (by omega)]
    exact h
  intro u hu
  simp only [mem_cons, not_mem_nil, or_false] at hu
  rcases hu with rfl | rfl
  . rw [toNat_ofNat_unit (by omega)]
    omega
  . rw [toNat_ofNat_unit (by omega)]
    omega

end Bytes

section Decodes

variable {P : Nat → Prop} {replacement : BitVec 16} {bytes : List (BitVec 8)} {units : List (BitVec 16)}

theorem decodes_flatMap (replacement : BitVec 16) {cs : List Nat} (hcs : ∀ c ∈ cs, P c)
    : Decodes P replacement (cs.flatMap encode) (cs.flatMap utf16) := by
  induction cs with
  | nil => exact .nil
  | cons c cs ih =>
    rw [flatMap_cons, flatMap_cons]
    exact .good (hcs c mem_cons_self) (ih fun c' hc' => hcs c' (mem_cons_of_mem _ hc'))

theorem Decodes.forall_units {Q : BitVec 16 → Prop} (h : Decodes P replacement bytes units)
    (hgood : ∀ c, P c → encode c <:+: bytes → ∀ u ∈ utf16 c, Q u) (hbad : Q replacement) : ∀ u ∈ units, Q u := by
  induction h with
  | nil => exact nofun
  | @good c bytes units hc _ ih =>
    intro u hu
    rcases mem_append.mp hu with hu | hu
    . exact hgood c hc (prefix_append _ _).isInfix u hu
    . exact ih (fun c hc hwithin => hgood c hc (hwithin.trans (suffix_append _ _).isInfix)) u hu
  | @bad ill bytes units _ _ _ ih =>
    intro u hu
    rcases mem_cons.mp hu with rfl | hu
    . exact hbad
    . exact ih (fun c hc hwithin => hgood c hc (hwithin.trans (suffix_append _ _).isInfix)) u hu

theorem Decodes.units_lt {bound : Nat} (h : Decodes P replacement bytes units) (hbound : bound ≤ 0x10000)
    (hgood : ∀ c, P c → encode c <:+: bytes → c < bound) (hbad : replacement.toNat < bound)
    : ∀ u ∈ units, u.toNat < bound :=
  h.forall_units (fun c hc hwithin => utf16_toNat_lt hbound (hgood c hc hwithin)) hbad

theorem Decodes.ascii_cons (hP : ∀ c < 0x80, P c) (hle : ∀ c, P c → c ≤ 0x10FFFF)
    (h : Decodes P replacement (b :: bytes) units) (hb : b.toNat < 0x80)
    : ∃ units', units = b.setWidth 16 :: units' ∧ Decodes P replacement bytes units' := by
  have hstart : encode b.toNat <+: b :: bytes := by
    rw [encode_toNat hb]
    exact prefix_append [b] bytes
  generalize hbytes : b :: bytes = whole at h
  cases h with
  | nil => contradiction
  | @good c rest units' hc h =>
    rw [hbytes] at hstart
    obtain rfl := encode_prefix_unique (hle _ (hP _ hb)) (hle c hc) hstart (prefix_append _ _)
    rw [encode_toNat hb] at hbytes
    cases hbytes
    refine ⟨units', ?_, h⟩
    unfold utf16
    rw [if_pos (by omega), BitVec.ofNat_toNat]
    rfl
  | bad hne hill _ =>
    refine absurd ⟨_, hP _ hb, ?_⟩ (hill 0 (length_pos_iff.mpr hne))
    rw [drop_zero, ← hbytes]
    exact hstart

theorem Decodes.ascii_append (hP : ∀ c < 0x80, P c) (hle : ∀ c, P c → c ≤ 0x10FFFF)
    (h : Decodes P replacement (pre ++ bytes) units) (hpre : ∀ b ∈ pre, b.toNat < 0x80)
    : ∃ units', units = pre.map (·.setWidth 16) ++ units' ∧ Decodes P replacement bytes units' := by
  induction pre generalizing units with
  | nil => exact ⟨units, rfl, h⟩
  | cons b pre ih =>
    obtain ⟨units', rfl, h'⟩ := Decodes.ascii_cons hP hle h (hpre b mem_cons_self)
    obtain ⟨units'', rfl, h''⟩ := ih h' fun b hb => hpre b (mem_cons_of_mem _ hb)
    exact ⟨units'', rfl, h''⟩

theorem Decodes.of_nil (h : Decodes P replacement [] units) : units = [] := by
  generalize hnil : ([] : List (BitVec 8)) = rest at h
  cases h with
  | nil => rfl
  | good => exact absurd (append_eq_nil_iff.mp hnil.symm).1 encode_ne_nil
  | bad hne => exact absurd (append_eq_nil_iff.mp hnil.symm).1 hne

theorem Decodes.of_ascii (hP : ∀ c < 0x80, P c) (hle : ∀ c, P c → c ≤ 0x10FFFF)
    (h : Decodes P replacement bytes units) (hbytes : ∀ b ∈ bytes, b.toNat < 0x80)
    : units = bytes.map (·.setWidth 16) := by
  rw [← append_nil bytes] at h
  obtain ⟨units', rfl, hnil⟩ := Decodes.ascii_append hP hle h hbytes
  rw [hnil.of_nil, append_nil]

theorem Decodes.head_of_not_begins (h : Decodes P replacement (b :: bytes) units)
    (hnot : ¬Begins P (b :: bytes)) : ∃ units', units = replacement :: units' := by
  generalize hbytes : b :: bytes = whole at h
  cases h with
  | nil => contradiction
  | @good c rest _ hc _ =>
    refine absurd ⟨c, hc, ?_⟩ hnot
    rw [hbytes]
    exact prefix_append _ _
  | bad => exact ⟨_, rfl⟩

theorem Decodes.ascii_of_units (hle : ∀ c, P c → c ≤ 0x10FFFF) (hreplacement : 0x80 ≤ replacement.toNat)
    (h : Decodes P replacement bytes units) (hunits : ∀ u ∈ units, u.toNat < 0x80) : ∀ b ∈ bytes, b.toNat < 0x80 := by
  induction h with
  | nil => exact nofun
  | @good c bytes units hc _ ih =>
    have hlt : c < 0x80 := by
      by_contra hge
      obtain ⟨u, hu⟩ := exists_mem_of_ne_nil _ (@utf16_ne_nil c)
      have := le_utf16_toNat (by decide) (hle c hc) (Nat.not_lt.mp hge) u hu
      have := hunits u (mem_append_left _ hu)
      omega
    intro b hb
    rw [encode_of_ascii hlt] at hb
    rcases mem_append.mp hb with hb | hb
    . rw [mem_singleton.mp hb, toNat_ofNat_byte (by omega)]
      exact hlt
    . exact ih (fun u hu => hunits u (mem_append_right _ hu)) b hb
  | bad _ _ _ _ =>
    have := hunits _ mem_cons_self
    omega

theorem Decodes.mem_units (hle : ∀ c, P c → c ≤ 0x10FFFF) (h : Decodes P replacement bytes units)
    (hc : P c) (hwithin : encode c <:+: bytes) : ∀ u ∈ utf16 c, u ∈ units := by
  induction h with
  | nil => exact absurd (infix_nil.mp hwithin) encode_ne_nil
  | @good c' bytes units hc' _ ih =>
    intro u hu
    obtain ⟨pre, post, heq⟩ := hwithin
    rw [append_assoc, append_eq_append_iff] at heq
    rcases heq with ⟨mid, hsplit, hrest⟩ | ⟨mid, hsplit, hrest⟩
    . cases pre with
      | nil =>
        rw [nil_append] at hsplit
        have : encode c <+: encode c' ++ bytes := by
          rw [hsplit, ← hrest]
          exact ⟨post, rfl⟩
        obtain rfl := encode_prefix_unique (hle c hc) (hle c' hc') this (prefix_append _ _)
        exact mem_append_left _ hu
      | cons b pre =>
        cases mid with
        | nil =>
          have : encode c <:+: bytes := ⟨[], post, hrest⟩
          exact mem_append_right _ (ih this u hu)
        | cons b' mid =>
          have hmem : b' ∈ (encode c').tail := by
            rw [hsplit, cons_append, tail_cons]
            exact mem_append_right _ mem_cons_self
          have hbegins : Begins P (b' :: (mid ++ bytes)) := ⟨c, hc, post, hrest⟩
          exact absurd hbegins (not_begins_of_continuation hle (isContinuation_of_mem_tail hmem))
    . have : encode c <:+: bytes := ⟨mid, post, by rw [append_assoc]; exact hrest.symm⟩
      exact mem_append_right _ (ih this u hu)
  | @bad ill bytes units _ hill _ ih =>
    intro u hu
    obtain ⟨pre, post, heq⟩ := hwithin
    by_cases hlt : pre.length < ill.length
    . refine absurd ⟨c, hc, ?_⟩ (hill pre.length hlt)
      rw [← heq, append_assoc, drop_left]
      exact ⟨post, rfl⟩
    have : encode c <:+: bytes := by
      refine ⟨pre.drop ill.length, post, ?_⟩
      have := congrArg (List.drop ill.length) heq
      rw [drop_left, append_assoc, drop_append_of_le_length (Nat.not_lt.mp hlt)] at this
      rw [← this, append_assoc]
    exact mem_cons_of_mem _ (ih this u hu)

theorem Begins.of_wellFormed (h : WellFormed P (b :: bytes)) : Begins P (b :: bytes) := by
  obtain ⟨cs, hcs, heq⟩ := h
  cases cs with
  | nil => contradiction
  | cons c cs =>
    refine ⟨c, hcs c mem_cons_self, ?_⟩
    rw [heq]
    exact prefix_append _ _

theorem WellFormed.tail (hle : ∀ c, P c → c ≤ 0x10FFFF) (hc : P c) (h : WellFormed P (encode c ++ bytes))
    : WellFormed P bytes := by
  obtain ⟨cs, hcs, heq⟩ := h
  cases cs with
  | nil => exact absurd (append_eq_nil_iff.mp heq).1 encode_ne_nil
  | cons c' cs =>
    have hc' := hcs c' mem_cons_self
    have hstart : encode c' <+: encode c ++ bytes := by
      rw [heq]
      exact prefix_append _ _
    obtain rfl := encode_prefix_unique (hle c hc) (hle c' hc') (prefix_append _ _) hstart
    exact ⟨cs, fun c'' hc'' => hcs c'' (mem_cons_of_mem _ hc''), append_cancel_left heq⟩

theorem flatMap_encode_injective (hle : ∀ c, P c → c ≤ 0x10FFFF) {cs ds : List Nat} (hcs : ∀ c ∈ cs, P c)
    (hds : ∀ d ∈ ds, P d) (h : cs.flatMap encode = ds.flatMap encode) : cs = ds := by
  induction cs generalizing ds with
  | nil =>
    cases ds with
    | nil => rfl
    | cons d ds => exact absurd (append_eq_nil_iff.mp h.symm).1 encode_ne_nil
  | cons c cs ih =>
    cases ds with
    | nil => exact absurd (append_eq_nil_iff.mp h).1 encode_ne_nil
    | cons d ds =>
      rw [forall_mem_cons] at hcs hds
      rw [flatMap_cons, flatMap_cons] at h
      have hstart : encode d <+: encode c ++ cs.flatMap encode := by
        rw [h]
        exact prefix_append _ _
      obtain rfl := encode_prefix_unique (hle c hcs.1) (hle d hds.1) (prefix_append _ _) hstart
      rw [ih hcs.2 hds.2 (append_cancel_left h)]

end Decodes

end Utf8
