import SpiderMonkey.Lib.OptionBind
import SpiderMonkey.Lib.Utf8
import SpiderMonkey.Vm.Impl.CharacterEncoding

/-!
This module contains what the loop of the inflation finds at an offset.
-/

namespace SpiderMonkey.CharacterEncoding

open List
open Utf8

section Bytes

theorem and_0x80_eq_zero_iff (b : BitVec 8) : b &&& 0x80 = 0 ↔ b.toNat < 0x80 := by
  revert b
  decide

theorem and_0xC0_eq_iff (b : BitVec 8) : b &&& 0xC0 = 0x80 ↔ 0x80 ≤ b.toNat ∧ b.toNat < 0xC0 := by
  revert b
  decide

theorem sequenceLength_eq (b : BitVec 8) (h : 0x80 ≤ b.toNat) : sequenceLength b =
    if b.toNat < 0xC0 then 1 else if b.toNat < 0xE0 then 2 else if b.toNat < 0xF0 then 3
    else if b.toNat < 0xF8 then 4 else if b.toNat < 0xFC then 5 else if b.toNat < 0xFE then 6
    else if b.toNat < 0xFF then 7 else 8 := by
  revert b
  decide

theorem and_0xE0_eq_0xA0_iff (b : BitVec 8) : b &&& 0xE0 = 0xA0 ↔ 0xA0 ≤ b.toNat ∧ b.toNat < 0xC0 := by
  revert b
  decide

theorem and_0xE0_eq_0x80_iff (b : BitVec 8) : b &&& 0xE0 = 0x80 ↔ 0x80 ≤ b.toNat ∧ b.toNat < 0xA0 := by
  revert b
  decide

theorem and_0xF0_eq_0x80_iff (b : BitVec 8) : b &&& 0xF0 = 0x80 ↔ 0x80 ≤ b.toNat ∧ b.toNat < 0x90 := by
  revert b
  decide

theorem shiftLeft_or (x : Nat) (b : BitVec 8) : (x <<< 6) ||| (b.toNat &&& 0x3F) = x * 64 + b.toNat % 64 := by
  have hmask : b.toNat &&& 0x3F = b.toNat % 64 := Nat.and_two_pow_sub_one_eq_mod b.toNat 6
  rw [hmask, ← Nat.shiftLeft_add_eq_or_of_lt (Nat.mod_lt _ (by decide)), Nat.shiftLeft_eq]

end Bytes

def InputChars.Allows : InputChars → Nat → Prop
  | UTF8Chars => IsScalarValue
  | WTF8Chars => IsCodePoint

theorem InputChars.Allows.le {kind : InputChars} {c : Nat} (h : kind.Allows c) : c ≤ 0x10FFFF := by
  cases kind with
  | UTF8Chars => exact h.1
  | WTF8Chars => exact h

section Ucs4

variable {kind : InputChars} {b b₁ b₂ b₃ : BitVec 8}

def checkUcs4 (kind : InputChars) (minucs4Char ucs4Char : Nat) : Nat :=
  if ucs4Char < minucs4Char then INVALID_UTF8
  else if kind = .UTF8Chars && IsSurrogate ucs4Char then INVALID_UTF8
  else ucs4Char

theorem ucs4_two (h : 0xC0 ≤ b.toNat ∧ b.toNat < 0xE0) (h₁ : IsContinuation b₁)
    : Utf8ToOneUcs4CharImpl kind [b, b₁] = checkUcs4 kind 0x80 (value₂ b b₁) := by
  have hlead : b.toNat &&& 31 = b.toNat % 32 := Nat.and_two_pow_sub_one_eq_mod b.toNat 5
  have hvalue : b.toNat % 32 * 64 + b₁.toNat % 64 = value₂ b b₁ := by
    unfold IsContinuation at h₁
    unfold value₂
    omega
  simp only [Utf8ToOneUcs4CharImpl, length_cons, length_nil, foldl_cons, foldl_nil, shiftLeft_or]
  simp only [Nat.reduceAdd, Nat.reduceSub, Nat.reduceShiftLeft, hlead, hvalue]
  rfl

theorem ucs4_three (h : 0xE0 ≤ b.toNat ∧ b.toNat < 0xF0) (h₁ : IsContinuation b₁) (h₂ : IsContinuation b₂)
    : Utf8ToOneUcs4CharImpl kind [b, b₁, b₂] = checkUcs4 kind 0x800 (value₃ b b₁ b₂) := by
  have hlead : b.toNat &&& 15 = b.toNat % 16 := Nat.and_two_pow_sub_one_eq_mod b.toNat 4
  have hvalue : (b.toNat % 16 * 64 + b₁.toNat % 64) * 64 + b₂.toNat % 64 = value₃ b b₁ b₂ := by
    unfold IsContinuation at h₁ h₂
    unfold value₃
    omega
  simp only [Utf8ToOneUcs4CharImpl, length_cons, length_nil, foldl_cons, foldl_nil, shiftLeft_or]
  simp only [Nat.reduceAdd, Nat.reduceSub, Nat.reduceShiftLeft, hlead, hvalue]
  rfl

theorem ucs4_four (h : 0xF0 ≤ b.toNat ∧ b.toNat < 0xF8) (h₁ : IsContinuation b₁) (h₂ : IsContinuation b₂)
    (h₃ : IsContinuation b₃)
    : Utf8ToOneUcs4CharImpl kind [b, b₁, b₂, b₃] = checkUcs4 kind 0x10000 (value₄ b b₁ b₂ b₃) := by
  have hlead : b.toNat &&& 7 = b.toNat % 8 := Nat.and_two_pow_sub_one_eq_mod b.toNat 3
  have hvalue : ((b.toNat % 8 * 64 + b₁.toNat % 64) * 64 + b₂.toNat % 64) * 64 + b₃.toNat % 64 = value₄ b b₁ b₂ b₃ := by
    unfold IsContinuation at h₁ h₂ h₃
    unfold value₄
    omega
  simp only [Utf8ToOneUcs4CharImpl, length_cons, length_nil, foldl_cons, foldl_nil, shiftLeft_or]
  simp only [Nat.reduceAdd, Nat.reduceSub, Nat.reduceShiftLeft, hlead, hvalue]
  rfl

theorem checkUcs4_allowed (hmin : minucs4Char ≤ c) (hc : kind.Allows c)
    : checkUcs4 kind minucs4Char c = c := by
  unfold checkUcs4
  rw [if_neg (by omega)]
  cases kind with
  | WTF8Chars => rfl
  | UTF8Chars =>
    have hnot := hc.2
    have : IsSurrogate c = false := by
      rw [← Bool.not_eq_true]
      intro hs
      simp only [IsSurrogate, LeadSurrogateMin, TrailSurrogateMax, Bool.and_eq_true] at hs
      exact hnot ⟨of_decide_eq_true hs.1, of_decide_eq_true hs.2⟩
    simp [this]

theorem lt_checkUcs4 (h : ¬(minucs4Char ≤ c ∧ kind.Allows c))
    : 0x10FFFF < checkUcs4 kind minucs4Char c := by
  unfold checkUcs4
  split
  . decide
  split
  . decide
  next hmin hsurrogate =>
    by_contra hle
    apply h
    refine ⟨by omega, ?_⟩
    cases kind with
    | WTF8Chars => exact Nat.not_lt.mp hle
    | UTF8Chars =>
      refine ⟨Nat.not_lt.mp hle, fun hs => hsurrogate ?_⟩
      simp [IsSurrogate, LeadSurrogateMin, TrailSurrogateMax, hs.1, hs.2]

theorem surrogates_eq_utf16 (hmin : 0x10000 ≤ c) (hle : c ≤ 0x10FFFF)
    : [LeadSurrogate c, TrailSurrogate c] = utf16 c := by
  have hlow : c &&& 0x3FF = c % 1024 := Nat.and_two_pow_sub_one_eq_mod c 10
  have htrail : c % 1024 ||| 0xDC00 = 0xDC00 + (c - 0x10000) % 1024 := by
    have hor := Nat.shiftLeft_add_eq_or_of_lt (show c % 1024 < 2 ^ 10 from Nat.mod_lt _ (by decide)) 55
    rw [Nat.or_comm]
    have : (55 : Nat) <<< 10 = 0xDC00 := rfl
    rw [this] at hor
    rw [← hor]
    omega
  have hlead : (c >>> 10) + (LeadSurrogateMin - (NonBMPMin >>> 10)) = 0xD800 + (c - 0x10000) / 1024 := by
    have : LeadSurrogateMin - (NonBMPMin >>> 10) = 0xD7C0 := rfl
    rw [this, Nat.shiftRight_eq_div_pow]
    omega
  unfold LeadSurrogate TrailSurrogate utf16
  rw [if_neg (by omega), hlead, hlow]
  have : TrailSurrogateMin = 0xDC00 := rfl
  rw [this, htrail]

theorem inflateCodePoint_allowed {c n minucs4Char : Nat} (hmin : minucs4Char ≤ c) (hc : kind.Allows c)
    : inflateCodePoint (checkUcs4 kind minucs4Char c) n = .units (utf16 c) n := by
  have hle := hc.le
  rw [checkUcs4_allowed hmin hc]
  unfold inflateCodePoint NonBMPMin NonBMPMax
  by_cases hlt : c < 0x10000
  . rw [if_pos hlt, utf16, if_pos hlt]
  . rw [if_neg hlt, if_pos hle, surrogates_eq_utf16 (Nat.not_lt.mp hlt) hle]

theorem inflateCodePoint_refused {c n minucs4Char : Nat} (h : ¬(minucs4Char ≤ c ∧ kind.Allows c))
    : ∃ report, inflateCodePoint (checkUcs4 kind minucs4Char c) n = .invalid report 1 := by
  have hbig := lt_checkUcs4 h
  unfold inflateCodePoint NonBMPMin NonBMPMax
  rw [if_neg (by omega), if_neg (by omega)]
  exact ⟨_, rfl⟩

end Ucs4

section DecodeAt

variable {kind : InputChars} {src rest : List (BitVec 8)} {i : Nat} {b b₁ b₂ b₃ : BitVec 8}

-- The offsets have 32 bits. They hold the length of the source and where each sequence in it would end, also one
-- that is cut off by the end of the source.
def Short (src : List (BitVec 8)) : Prop :=
  src.length < 2 ^ 32
    ∧ ∀ i b, src[i]? = some b → 0x80 ≤ b.toNat → sequenceLength b ≤ 4 → i + sequenceLength b < 2 ^ 32

theorem short_of_length (h : src.length + 4 ≤ 2 ^ 32) : Short src := by
  refine ⟨by omega, fun i b hget _ hle => ?_⟩
  have := (List.getElem?_eq_some_iff.mp hget).1
  omega

theorem addOffset_eq (h : i + n < 2 ^ 32) : addOffset i n = i + n := Nat.mod_eq_of_lt h

theorem lt_of_drop (hdrop : src.drop i = b :: rest) : i < src.length := by
  by_contra hle
  rw [drop_eq_nil_of_le (Nat.not_lt.mp hle)] at hdrop
  contradiction

theorem length_of_drop (hdrop : src.drop i = b :: rest) : src.length = i + (rest.length + 1) := by
  have hlen := congrArg List.length hdrop
  rw [length_drop, length_cons] at hlen
  have := lt_of_drop hdrop
  omega

theorem getElem?_addOffset (hshort : Short src) (hdrop : src.drop i = b :: rest) (hn : n < rest.length)
    : src[addOffset i (n + 1)]? = rest[n]? := by
  have hlength := length_of_drop hdrop
  have hlt := hshort.1
  rw [addOffset_eq (by omega), ← List.getElem?_drop, hdrop, List.getElem?_cons_succ]

theorem getElem?_of_drop (hdrop : src.drop i = b :: rest) : src[i]? = some b := by
  have := @List.getElem?_drop _ src i 0
  rw [Nat.add_zero, hdrop] at this
  exact this.symm

theorem decodeAt_ascii (hdrop : src.drop i = b :: rest) (h : b.toNat < 0x80)
    : decodeAt kind src i = some (.units [b.setWidth 16] 1) := by
  unfold decodeAt
  simp only [getElem?_of_drop hdrop, some_bind]
  rw [if_pos ((and_0x80_eq_zero_iff b).mpr h)]

theorem decodeAt_lead (hdrop : src.drop i = b :: rest) (h : 0x80 ≤ b.toNat)
    (hlead : sequenceLength b < 2 ∨ sequenceLength b > 4)
    : decodeAt kind src i = some (.invalid (.ReportInvalidCharacter i) 1) := by
  unfold decodeAt
  simp only [getElem?_of_drop hdrop, some_bind]
  rw [if_neg (fun hz => by rw [and_0x80_eq_zero_iff] at hz; omega), if_pos hlead]

theorem decodeAt_truncated (hshort : Short src) (hdrop : src.drop i = b :: rest) (h : 0x80 ≤ b.toNat)
    (hlead : ¬(sequenceLength b < 2 ∨ sequenceLength b > 4)) (hlen : rest.length + 1 < sequenceLength b)
    : decodeAt kind src i = some (.invalid .ReportBufferTooSmall 1) := by
  have hlength := length_of_drop hdrop
  have hend := hshort.2 i b (getElem?_of_drop hdrop) h (by omega)
  unfold decodeAt
  simp only [getElem?_of_drop hdrop, some_bind]
  rw [if_neg (fun hz => by rw [and_0x80_eq_zero_iff] at hz; omega), if_neg hlead, addOffset_eq hend,
    if_pos (by omega)]

theorem decodeAt_full {found : Option Nat} (hshort : Short src) (hdrop : src.drop i = b :: b₁ :: rest) (h : 0x80 ≤ b.toNat)
    (hn : sequenceLength b = rounds + 1) (hrounds : 1 ≤ rounds ∧ rounds ≤ 3) (hlen : rounds ≤ rest.length + 1)
    : findNonContinuation src i rounds 1 = some found
      → decodeAt kind src i = some (if refusesSecondByte kind b b₁ then .invalid (.ReportInvalidCharacter i) 1
        else match found with
        | some m => .invalid (.ReportInvalidCharacter i) m
        | none => inflateCodePoint (Utf8ToOneUcs4CharImpl kind (b :: (b₁ :: rest).take rounds)) (rounds + 1)) := by
  intro hfind
  have hlt := hshort.1
  have hlength := length_of_drop hdrop
  have hsecond : src[addOffset i 1]? = some b₁ := getElem?_addOffset hshort hdrop (Nat.zero_lt_succ _)
  rw [length_cons] at hlength
  unfold decodeAt
  simp only [getElem?_of_drop hdrop, hsecond, some_bind, hn]
  rw [if_neg (fun hz => by rw [and_0x80_eq_zero_iff] at hz; omega), if_neg (by omega), addOffset_eq (by omega),
    if_neg (by omega), hdrop]
  split
  . rfl
  . rw [Nat.add_sub_cancel, hfind]
    cases found <;> rfl

theorem isContinuation_iff : b &&& 0xC0 = 0x80 ↔ IsContinuation b := and_0xC0_eq_iff b

theorem findNonContinuation_spec (hshort : Short src) (hdrop : src.drop i = b :: rest)
    (hlen : m + rounds ≤ rest.length)
    : (findNonContinuation src i rounds (m + 1) = some none
        ∧ ∀ k, m ≤ k → k < m + rounds → ∀ b ∈ rest[k]?, IsContinuation b)
      ∨ ∃ n, findNonContinuation src i rounds (m + 1) = some (some (n + 1)) ∧ m ≤ n ∧ n < m + rounds
        ∧ (∀ k, m ≤ k → k < n → ∀ b ∈ rest[k]?, IsContinuation b) ∧ ∀ b ∈ rest[n]?, ¬IsContinuation b := by
  induction rounds generalizing m with
  | zero =>
    left
    refine ⟨rfl, fun k hle hlt => ?_⟩
    omega
  | succ rounds ih =>
    have hget : src[addOffset i (m + 1)]? = rest[m]? := getElem?_addOffset hshort hdrop (by omega)
    obtain ⟨next, hnext⟩ : ∃ next, rest[m]? = some next := ⟨_, List.getElem?_eq_getElem (by omega)⟩
    unfold findNonContinuation
    simp only [hget, hnext, some_bind]
    by_cases hcont : IsContinuation next
    . rw [if_neg (fun hne => hne (isContinuation_iff.mpr hcont))]
      have hfirst : ∀ b ∈ rest[m]?, IsContinuation b := by
        rw [hnext]
        rintro _ ⟨⟩
        exact hcont
      rcases @ih (m + 1) (by omega) with ⟨hfind, hall⟩ | ⟨n, hfind, hmn, hn, hall, hnot⟩
      . left
        refine ⟨hfind, fun k hle hlt => ?_⟩
        rcases Nat.eq_or_lt_of_le hle with rfl | hlt'
        . exact hfirst
        . exact hall k hlt' (by omega)
      right
      refine ⟨n, hfind, by omega, by omega, fun k hle hlt => ?_, hnot⟩
      rcases Nat.eq_or_lt_of_le hle with rfl | hlt'
      . exact hfirst
      . exact hall k hlt' hlt
    . right
      rw [if_pos (fun heq => hcont (isContinuation_iff.mp heq))]
      refine ⟨m, rfl, Nat.le_refl m, by omega, fun k hle hlt => by omega, ?_⟩
      rw [hnext]
      rintro _ ⟨⟩
      exact hcont

def Right (kind : InputChars) (rest : List (BitVec 8)) : Found → Prop
  | .units units n => ∃ c, kind.Allows c ∧ encode c <+: rest ∧ units = utf16 c ∧ n = (encode c).length
  | .invalid _ n => 1 ≤ n ∧ n ≤ rest.length ∧ ∀ k < n, ¬Begins kind.Allows (rest.drop k)

theorem refusesSecondByte_iff : refusesSecondByte kind b b₁ = true ↔
    b.toNat = 0xE0 ∧ ¬(0xA0 ≤ b₁.toNat ∧ b₁.toNat < 0xC0) ∧ kind = .UTF8Chars
      ∨ b.toNat = 0xED ∧ ¬(0x80 ≤ b₁.toNat ∧ b₁.toNat < 0xA0)
        ∧ (kind = .UTF8Chars ∨ ¬(0xA0 ≤ b₁.toNat ∧ b₁.toNat < 0xC0))
      ∨ b.toNat = 0xF0 ∧ (0x80 ≤ b₁.toNat ∧ b₁.toNat < 0x90) ∧ kind = .UTF8Chars
      ∨ b.toNat = 0xF4 ∧ ¬(0x80 ≤ b₁.toNat ∧ b₁.toNat < 0x90) ∧ kind = .UTF8Chars := by
  have htoNat : ∀ n : BitVec 8, b = n ↔ b.toNat = n.toNat := fun n => ⟨congrArg _, BitVec.eq_of_toNat_eq⟩
  rw [← and_0xE0_eq_0xA0_iff, ← and_0xE0_eq_0x80_iff, ← and_0xF0_eq_0x80_iff]
  unfold refusesSecondByte
  simp only [htoNat]
  cases kind with
  | UTF8Chars => simp [or_assoc]
  | WTF8Chars =>
    simp
    grind

theorem not_begins_iff : ¬Begins kind.Allows rest ↔ ∀ c, kind.Allows c → ¬encode c <+: rest := by
  unfold Begins
  push Not
  rfl

theorem right_invalid (report : Report) (hn : n ≤ rest.length)
    (hcont : ∀ k < n, ∀ b ∈ rest[k]?, IsContinuation b) (hnot : ¬Begins kind.Allows (b :: rest))
    : Right kind (b :: rest) (.invalid report (n + 1)) := by
  refine ⟨by omega, by rw [length_cons]; omega, fun k hk => ?_⟩
  cases k with
  | zero => exact hnot
  | succ k =>
    rw [drop_succ_cons, drop_eq_getElem_cons (by omega)]
    apply not_begins_of_continuation (fun c hc => hc.le)
    apply hcont k (by omega)
    exact List.getElem?_eq_getElem (by omega)

theorem right_first (report : Report) (hnot : ¬Begins kind.Allows (b :: rest))
    : Right kind (b :: rest) (.invalid report 1) :=
  right_invalid report (Nat.zero_le _) (fun _ hk => absurd hk (Nat.not_lt_zero _)) hnot

theorem right_whole {c minucs4Char n : Nat} (hencode : minucs4Char ≤ c → encode c <+: b :: rest)
    (hlen : minucs4Char ≤ c → (encode c).length = n)
    (hbegins : ∀ c', c' ≤ 0x10FFFF → encode c' <+: b :: rest → c' = c ∧ minucs4Char ≤ c')
    : Right kind (b :: rest) (inflateCodePoint (checkUcs4 kind minucs4Char c) n) := by
  by_cases h : minucs4Char ≤ c ∧ kind.Allows c
  . rw [inflateCodePoint_allowed h.1 h.2]
    exact ⟨c, h.2, hencode h.1, rfl, (hlen h.1).symm⟩
  obtain ⟨report, hinflate⟩ := @inflateCodePoint_refused _ _ n _ h
  rw [hinflate]
  apply right_first
  rw [not_begins_iff]
  intro c' hc' hstart
  obtain ⟨rfl, hmin⟩ := hbegins c' hc'.le hstart
  exact h ⟨hmin, hc'⟩

theorem begins_two (h : 0xC0 ≤ b.toNat ∧ b.toNat < 0xE0) (hc : c ≤ 0x10FFFF) (hstart : encode c <+: b :: rest)
    : ∃ b₁ rest', rest = b₁ :: rest' ∧ IsContinuation b₁ ∧ c = value₂ b b₁ ∧ 0x80 ≤ c := by
  rcases encode_prefix_cases hc hstart with h' | ⟨-, -, h'⟩ | ⟨h', -⟩ | ⟨h', -⟩
  . omega
  . exact h'
  . omega
  . omega

theorem begins_three (h : 0xE0 ≤ b.toNat ∧ b.toNat < 0xF0) (hc : c ≤ 0x10FFFF) (hstart : encode c <+: b :: rest)
    : ∃ b₁ b₂ rest', rest = b₁ :: b₂ :: rest' ∧ IsContinuation b₁ ∧ IsContinuation b₂ ∧ c = value₃ b b₁ b₂
      ∧ 0x800 ≤ c := by
  rcases encode_prefix_cases hc hstart with h' | ⟨-, h', -⟩ | ⟨-, -, h'⟩ | ⟨h', -⟩
  . omega
  . omega
  . exact h'
  . omega

theorem begins_four (h : 0xF0 ≤ b.toNat ∧ b.toNat < 0xF8) (hc : c ≤ 0x10FFFF) (hstart : encode c <+: b :: rest)
    : ∃ b₁ b₂ b₃ rest', rest = b₁ :: b₂ :: b₃ :: rest' ∧ IsContinuation b₁ ∧ IsContinuation b₂ ∧ IsContinuation b₃
      ∧ c = value₄ b b₁ b₂ b₃ ∧ 0x10000 ≤ c := by
  rcases encode_prefix_cases hc hstart with h' | ⟨-, h', -⟩ | ⟨-, h', -⟩ | ⟨-, -, h'⟩
  . omega
  . omega
  . omega
  . exact h'

theorem not_begins_of_refused (h : refusesSecondByte kind b b₁ = true) : ¬Begins kind.Allows (b :: b₁ :: rest) := by
  rw [not_begins_iff]
  intro c hc hstart
  have hle := hc.le
  have hallows : kind = .UTF8Chars → ¬(0xD800 ≤ c ∧ c ≤ 0xDFFF) := by
    rintro rfl
    exact hc.2
  rw [refusesSecondByte_iff] at h
  rcases encode_prefix_cases hle hstart with h' | ⟨h₁, h₂, _, _, heq, hcont, hvalue⟩
      | ⟨h₁, h₂, _, _, _, heq, hcont, hcont₂, hvalue⟩ | ⟨h₁, h₂, _, _, _, _, heq, hcont, hcont₂, hcont₃, hvalue⟩
  . omega
  . omega
  . cases heq
    unfold IsContinuation at hcont hcont₂
    unfold value₃ at hvalue
    rcases h with ⟨h, hsecond, -⟩ | ⟨h, hsecond, hkind⟩ | ⟨h, -⟩ | ⟨h, -⟩
    . omega
    . rcases hkind with hkind | hkind
      . have := hallows hkind
        omega
      . omega
    . omega
    . omega
  . cases heq
    unfold IsContinuation at hcont hcont₂ hcont₃
    unfold value₄ at hvalue
    rcases h with ⟨h, -⟩ | ⟨h, -⟩ | ⟨h, hsecond, -⟩ | ⟨h, hsecond, -⟩
    . omega
    . omega
    . omega
    . omega

theorem decodeAt_right_full (hshort : Short src) (hdrop : src.drop i = b :: b₁ :: rest)
    (h : 0x80 ≤ b.toNat) (hn : sequenceLength b = rounds + 1) (hrounds : 1 ≤ rounds ∧ rounds ≤ 3)
    (hlen : rounds ≤ rest.length + 1)
    (hbegins : ∀ c ≤ 0x10FFFF, encode c <+: b :: b₁ :: rest → ∀ k < rounds, ∀ x ∈ (b₁ :: rest)[k]?, IsContinuation x)
    (hwhole : (∀ k < rounds, ∀ x ∈ (b₁ :: rest)[k]?, IsContinuation x) → Right kind (b :: b₁ :: rest)
      (inflateCodePoint (Utf8ToOneUcs4CharImpl kind (b :: (b₁ :: rest).take rounds)) (rounds + 1)))
    : ∃ found, decodeAt kind src i = some found ∧ Right kind (b :: b₁ :: rest) found := by
  have hfull := @decodeAt_full kind src rest i b b₁ rounds
  rcases @findNonContinuation_spec src _ i b 0 rounds hshort hdrop (by rw [length_cons]; omega)
    with ⟨hfind, hall⟩ | ⟨m, hfind, -, hm, hall, hnot⟩
  . refine ⟨_, hfull hshort hdrop h hn hrounds hlen hfind, ?_⟩
    split
    next hrefuses => exact right_first _ (not_begins_of_refused hrefuses)
    next => exact hwhole fun k hk => hall k (Nat.zero_le k) (by omega)
  refine ⟨_, hfull hshort hdrop h hn hrounds hlen hfind, ?_⟩
  split
  next hrefuses => exact right_first _ (not_begins_of_refused hrefuses)
  next =>
    apply right_invalid
    . rw [length_cons]
      omega
    . exact fun k hk => hall k (Nat.zero_le k) hk
    rw [not_begins_iff]
    intro c hc hstart
    have hlt : m < (b₁ :: rest).length := by
      rw [length_cons]
      omega
    have hget := List.getElem?_eq_getElem hlt
    exact hnot _ hget (hbegins c hc.le hstart m (by omega) _ hget)

theorem decodeAt_right_two (hshort : Short src) (hdrop : src.drop i = b :: b₁ :: rest)
    (h : 0xC0 ≤ b.toNat ∧ b.toNat < 0xE0)
    : ∃ found, decodeAt kind src i = some found ∧ Right kind (b :: b₁ :: rest) found := by
  have hn : sequenceLength b = 1 + 1 := by
    rw [sequenceLength_eq b (by omega), if_neg (by omega), if_pos h.2]
  apply decodeAt_right_full hshort hdrop (by omega) hn (by omega) (by omega)
  . intro c hc hstart k hk
    obtain ⟨_, _, heq, hcont, -⟩ := begins_two h hc hstart
    cases heq
    obtain rfl : k = 0 := by omega
    rintro _ ⟨⟩
    exact hcont
  intro hall
  have h₁ : IsContinuation b₁ := hall 0 (by decide) b₁ rfl
  have hucs4 : Utf8ToOneUcs4CharImpl kind (b :: (b₁ :: rest).take 1) = checkUcs4 kind 0x80 (value₂ b b₁) :=
    ucs4_two h h₁
  rw [hucs4]
  refine right_whole ?_ ?_ ?_
  . intro hmin
    rw [encode_value₂ h h₁ hmin]
    exact prefix_append [b, b₁] rest
  . intro hmin
    rw [encode_value₂ h h₁ hmin]
    rfl
  . intro c hc hstart
    obtain ⟨_, _, heq, -, hvalue⟩ := begins_two h hc hstart
    cases heq
    exact hvalue

theorem decodeAt_right_three (hshort : Short src) (hdrop : src.drop i = b :: b₁ :: b₂ :: rest)
    (h : 0xE0 ≤ b.toNat ∧ b.toNat < 0xF0)
    : ∃ found, decodeAt kind src i = some found ∧ Right kind (b :: b₁ :: b₂ :: rest) found := by
  have hn : sequenceLength b = 2 + 1 := by
    rw [sequenceLength_eq b (by omega), if_neg (by omega), if_neg (by omega), if_pos h.2]
  apply decodeAt_right_full hshort hdrop (by omega) hn (by omega) (by rw [length_cons]; omega)
  . intro c hc hstart k hk
    obtain ⟨_, _, _, heq, hcont, hcont', -⟩ := begins_three h hc hstart
    cases heq
    obtain rfl | rfl : k = 0 ∨ k = 1 := by omega
    . rintro _ ⟨⟩
      exact hcont
    . rintro _ ⟨⟩
      exact hcont'
  intro hall
  have h₁ : IsContinuation b₁ := hall 0 (by decide) b₁ rfl
  have h₂ : IsContinuation b₂ := hall 1 (by decide) b₂ rfl
  have hucs4 : Utf8ToOneUcs4CharImpl kind (b :: (b₁ :: b₂ :: rest).take 2)
      = checkUcs4 kind 0x800 (value₃ b b₁ b₂) := ucs4_three h h₁ h₂
  rw [hucs4]
  refine right_whole ?_ ?_ ?_
  . intro hmin
    rw [encode_value₃ h h₁ h₂ hmin]
    exact prefix_append [b, b₁, b₂] rest
  . intro hmin
    rw [encode_value₃ h h₁ h₂ hmin]
    rfl
  . intro c hc hstart
    obtain ⟨_, _, _, heq, -, -, hvalue⟩ := begins_three h hc hstart
    cases heq
    exact hvalue

theorem decodeAt_right_four (hshort : Short src) (hdrop : src.drop i = b :: b₁ :: b₂ :: b₃ :: rest)
    (h : 0xF0 ≤ b.toNat ∧ b.toNat < 0xF8)
    : ∃ found, decodeAt kind src i = some found ∧ Right kind (b :: b₁ :: b₂ :: b₃ :: rest) found := by
  have hn : sequenceLength b = 3 + 1 := by
    rw [sequenceLength_eq b (by omega), if_neg (by omega), if_neg (by omega), if_neg (by omega), if_pos h.2]
  apply decodeAt_right_full hshort hdrop (by omega) hn (by omega) (by simp only [length_cons]; omega)
  . intro c hc hstart k hk
    obtain ⟨_, _, _, _, heq, hcont, hcont', hcont'', -⟩ := begins_four h hc hstart
    cases heq
    obtain rfl | rfl | rfl : k = 0 ∨ k = 1 ∨ k = 2 := by omega
    . rintro _ ⟨⟩
      exact hcont
    . rintro _ ⟨⟩
      exact hcont'
    . rintro _ ⟨⟩
      exact hcont''
  intro hall
  have h₁ : IsContinuation b₁ := hall 0 (by decide) b₁ rfl
  have h₂ : IsContinuation b₂ := hall 1 (by decide) b₂ rfl
  have h₃ : IsContinuation b₃ := hall 2 (by decide) b₃ rfl
  have hucs4 : Utf8ToOneUcs4CharImpl kind (b :: (b₁ :: b₂ :: b₃ :: rest).take 3)
      = checkUcs4 kind 0x10000 (value₄ b b₁ b₂ b₃) := ucs4_four h h₁ h₂ h₃
  rw [hucs4]
  refine right_whole ?_ ?_ ?_
  . intro hmin
    rw [encode_value₄ h h₁ h₂ h₃ hmin]
    exact prefix_append [b, b₁, b₂, b₃] rest
  . intro hmin
    rw [encode_value₄ h h₁ h₂ h₃ hmin]
    rfl
  . intro c hc hstart
    obtain ⟨_, _, _, _, heq, -, -, -, hvalue⟩ := begins_four h hc hstart
    cases heq
    exact hvalue

theorem decodeAt_right_truncated (hshort : Short src) (hdrop : src.drop i = b :: rest) (h : 0x80 ≤ b.toNat)
    (hlead : ¬(sequenceLength b < 2 ∨ sequenceLength b > 4)) (hlen : rest.length + 1 < sequenceLength b)
    : ∃ found, decodeAt kind src i = some found ∧ Right kind (b :: rest) found := by
  refine ⟨_, decodeAt_truncated hshort hdrop h hlead hlen, right_first _ ?_⟩
  rw [not_begins_iff]
  intro c hc hstart
  rw [sequenceLength_eq b h] at hlen
  rcases encode_prefix_cases hc.le hstart with h' | ⟨h₁, h₂, _, _, rfl, -⟩ | ⟨h₁, h₂, _, _, _, rfl, -⟩
      | ⟨h₁, h₂, _, _, _, _, rfl, -⟩
  . omega
  . rw [if_neg (by omega), if_pos h₂, length_cons] at hlen
    omega
  . rw [if_neg (by omega), if_neg (by omega), if_pos h₂, length_cons, length_cons] at hlen
    omega
  . rw [if_neg (by omega), if_neg (by omega), if_neg (by omega), if_pos h₂] at hlen
    simp only [length_cons] at hlen
    omega

theorem decodeAt_right_lead (hdrop : src.drop i = b :: rest) (h : 0x80 ≤ b.toNat)
    (hlead : sequenceLength b < 2 ∨ sequenceLength b > 4)
    : ∃ found, decodeAt kind src i = some found ∧ Right kind (b :: rest) found := by
  refine ⟨_, decodeAt_lead hdrop h hlead, right_first _ ?_⟩
  rw [not_begins_iff]
  intro c hc hstart
  rw [sequenceLength_eq b h] at hlead
  rcases encode_prefix_cases hc.le hstart with h' | ⟨h₁, h₂, -⟩ | ⟨h₁, h₂, -⟩ | ⟨h₁, h₂, -⟩
  . omega
  . rw [if_neg (by omega), if_pos h₂] at hlead
    omega
  . rw [if_neg (by omega), if_neg (by omega), if_pos h₂] at hlead
    omega
  . rw [if_neg (by omega), if_neg (by omega), if_neg (by omega), if_pos h₂] at hlead
    omega

theorem decodeAt_right (hshort : Short src) (hdrop : src.drop i = b :: rest)
    : ∃ found, decodeAt kind src i = some found ∧ Right kind (b :: rest) found := by
  by_cases hascii : b.toNat < 0x80
  . refine ⟨_, decodeAt_ascii hdrop hascii, b.toNat, ?_, ?_, ?_, ?_⟩
    . cases kind with
      | UTF8Chars => exact ⟨by omega, by omega⟩
      | WTF8Chars => exact Nat.le_trans (Nat.le_of_lt hascii) (by decide)
    . rw [encode_toNat hascii]
      exact prefix_append [b] rest
    . unfold utf16
      rw [if_pos (by omega), BitVec.ofNat_toNat]
    . rw [encode_toNat hascii]
      rfl
  have h : 0x80 ≤ b.toNat := Nat.not_lt.mp hascii
  by_cases hlead : sequenceLength b < 2 ∨ sequenceLength b > 4
  . exact decodeAt_right_lead hdrop h hlead
  by_cases hlen : rest.length + 1 < sequenceLength b
  . exact decodeAt_right_truncated hshort hdrop h hlead hlen
  have hcases := sequenceLength_eq b h
  have hclass : (0xC0 ≤ b.toNat ∧ b.toNat < 0xE0 ∧ 1 ≤ rest.length) ∨ (0xE0 ≤ b.toNat ∧ b.toNat < 0xF0 ∧ 2 ≤ rest.length)
      ∨ (0xF0 ≤ b.toNat ∧ b.toNat < 0xF8 ∧ 3 ≤ rest.length) := by
    split_ifs at hcases <;> omega
  rcases hclass with ⟨h₁, h₂, hlen⟩ | ⟨h₁, h₂, hlen⟩ | ⟨h₁, h₂, hlen⟩
  . obtain ⟨b₁, rest, rfl⟩ := exists_cons_of_length_pos hlen
    exact decodeAt_right_two hshort hdrop ⟨h₁, h₂⟩
  . match rest, hlen with
    | b₁ :: b₂ :: rest, _ => exact decodeAt_right_three hshort hdrop ⟨h₁, h₂⟩
  . match rest, hlen with
    | b₁ :: b₂ :: b₃ :: rest, _ => exact decodeAt_right_four hshort hdrop ⟨h₁, h₂⟩

end DecodeAt

end SpiderMonkey.CharacterEncoding
