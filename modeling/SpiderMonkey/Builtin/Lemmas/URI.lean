import SpiderMonkey.Builtin.Impl.URI
import SpiderMonkey.Lib.Ensures
import SpiderMonkey.Vm.Lemmas.CharacterEncoding
import SpiderMonkey.Vm.Lemmas.JSONToken

/-!
This module contains what the steps of the loops over the units of a string do.
-/

namespace SpiderMonkey.URI

open List
open JSON (IsLeadSurrogate IsTrailSurrogate isAsciiHexDigit_iff)
open CharacterEncoding (NonBMPMin NonBMPMax sequenceLength sequenceLength_eq Utf8ToOneUcs4CharImpl InputChars
  checkUcs4 checkUcs4_allowed lt_checkUcs4 ucs4_two ucs4_three ucs4_four surrogates_eq_utf16 and_0xC0_eq_iff)
open Overwrite Utf8

variable {granted : Nat → Bool} {chars sb out : List CharT} {bad : Prop} {k startAppend n : Nat}

def Refused (granted : Nat → Bool) (n : Nat) : Prop := ∃ m ≤ n, granted m = false ∨ MAX_LENGTH < m

-- `bad` is what holds of a malformed string, and no more than `n` units are asked for.
def Fails (granted : Nat → Bool) (bad : Prop) (n : Nat) : Stop → Prop
  | .Failure => Refused granted n
  | .BadUri => bad
  | .stuck => False

theorem Fails.mono (h : Fails granted bad n e) (hbad : bad → bad') (hle : n ≤ m)
    : Fails granted bad' m e := by
  cases e with
  | Failure =>
    obtain ⟨l, hl, h⟩ := h
    exact ⟨l, hl.trans hle, h⟩
  | BadUri => exact hbad h
  | stuck => exact h

theorem read_ends (h : chars[k]? = some c) (E : Stop → Prop) : Ends (read chars k) (· = c) E := by
  rw [read, h]
  rfl

theorem reserve_ends (h : m ≤ n) : Ends (reserve granted m) (fun _ => True) (Fails granted bad n) := by
  unfold reserve
  split
  next => trivial
  next hrefused => exact ⟨m, h, .inl (Bool.eq_false_of_not_eq_true hrefused)⟩

theorem append_ends (h : sb.length + w.length ≤ n)
    : Ends (append granted sb w) (· = sb ++ w) (Fails granted bad n) :=
  (reserve_ends h).bind fun _ _ => rfl

structure Built (chars sb : List CharT) (startAppend k : Nat) (out : List CharT) : Prop where
  startAppend_le : startAppend ≤ k
  le_length : k ≤ chars.length
  out_eq : sb ++ slice chars startAppend (k - startAppend) = out
  nil_iff : sb = [] ↔ startAppend = 0

theorem Built.start : Built chars [] 0 0 [] := ⟨le_rfl, Nat.zero_le _, rfl, iff_of_true rfl rfl⟩

theorem Built.keep (h : Built chars sb startAppend k out) (hn : k + n ≤ chars.length)
    : Built chars sb startAppend (k + n) (out ++ (chars.drop k).take n) := by
  refine ⟨h.startAppend_le.trans (Nat.le_add_right ..), hn, ?_, h.nil_iff⟩
  have hle := h.startAppend_le
  rw [← h.out_eq, append_assoc, slice, slice, show k + n - startAppend = k - startAppend + n by omega,
    take_add, drop_drop, Nat.add_sub_cancel' hle]

theorem Built.restart (hne : out ≠ []) (hk : k ≤ chars.length) (hpos : 0 < k) : Built chars out k k out := by
  refine ⟨le_rfl, hk, ?_, iff_of_false hne (Nat.ne_of_gt hpos)⟩
  rw [Nat.sub_self, slice, take_zero, append_nil]

theorem Built.flush (h : Built chars sb startAppend k out) (reserves : Bool) (hout : out.length ≤ n)
    (hreserves : reserves = true → chars.length ≤ n)
    : Ends (appendRange granted reserves chars sb startAppend k) (· = out) (Fails granted bad n) := by
  have hle := h.startAppend_le
  have hlength := h.le_length
  have hsum : sb.length + (slice chars startAppend (k - startAppend)).length = out.length := by
    rw [← h.out_eq, length_append]
  unfold appendRange
  rw [if_neg (by omega)]
  split
  next hlt =>
    have happend : Ends (append granted sb (slice chars startAppend (k - startAppend))) (· = out)
        (Fails granted bad n) := by
      rw [← h.out_eq]
      exact append_ends (by omega)
    split
    next hreserve =>
      rw [Bool.and_eq_true] at hreserve
      exact (reserve_ends (hreserves hreserve.1)).bind fun _ _ => happend
    next => exact happend
  next hge =>
    have hzero : k - startAppend = 0 := by omega
    have hout := h.out_eq
    rw [hzero, slice, take_zero, append_nil] at hout
    exact hout

theorem Built.transfer (h : Built chars sb startAppend chars.length out) (reserves : Bool) (hout : out.length ≤ n)
    (hreserves : reserves = true → chars.length ≤ n)
    : Ends (transferRest granted reserves chars (sb, startAppend)) (· = out) (Fails granted bad n) := by
  have hflush : Ends (if 0 < startAppend then appendRange granted reserves chars sb startAppend chars.length
      else pure sb) (fun sb' => if startAppend = 0 then sb' = [] ∧ out = chars else sb' = out) (Fails granted bad n) := by
    split
    next hpos =>
      exact (h.flush reserves hout hreserves).mono (fun _ heq => (if_neg (Nat.ne_of_gt hpos)).mpr heq) fun _ he => he
    next hzero =>
      have hzero : startAppend = 0 := by omega
      have hnil := h.nil_iff.mpr hzero
      refine (if_pos hzero).mpr ⟨hnil, ?_⟩
      rw [← h.out_eq, hnil, hzero, slice, drop_zero, Nat.sub_zero, take_length]
      rfl
  unfold transferRest
  refine hflush.bind fun sb' hsb' => ?_
  unfold TransferBufferToString
  split at hsb'
  next hzero =>
    rw [hsb'.1]
    exact hsb'.2.symm
  next hpos =>
    have hne : ¬sb'.isEmpty = true := by
      rw [List.isEmpty_iff, hsb', ← h.out_eq, append_eq_nil_iff, h.nil_iff]
      exact fun hnil => hpos hnil.1
    rw [if_neg hne]
    split
    next hlong => exact ⟨sb'.length, hsb' ▸ hout, .inr hlong⟩
    next => exact (reserve_ends (hsb' ▸ hout)).bind fun _ _ => hsb'

section Decode

def octets : List CharT → List (BitVec 8)
  | p :: c :: d :: w =>
    if p = '%' ∧ IsAsciiHexDigit c ∧ IsAsciiHexDigit d then
      .ofNat 8 (AsciiAlphanumericToNumber c * 16 + AsciiAlphanumericToNumber d) :: octets w
    else []
  | _ => []

variable {rest : List CharT} {B : BitVec 8} {bs : List (BitVec 8)}

theorem getElem?_of_drop (h : chars.drop k = rest) (i : Nat) : chars[k + i]? = rest[i]? := by
  rw [← h, List.getElem?_drop]

theorem octets_of_length_le (h : rest.length ≤ 2) : octets rest = [] := by
  rcases rest with _ | ⟨_, _ | ⟨_, _ | ⟨_, _⟩⟩⟩
  . rfl
  . rfl
  . rfl
  . simp only [length_cons] at h
    omega

theorem readOctet_ends (h : chars.drop k = rest) (hhead : rest[0]? = some (unit '%')) (hlen : k + 2 < chars.length)
    : Ends (readOctet chars k) (fun B => octets rest = B :: octets (chars.drop (k + 3)))
        fun e => e = .BadUri ∧ octets rest = [] := by
  obtain ⟨p, c, d, w, rfl⟩ : ∃ p c d w, rest = p :: c :: d :: w := by
    have hlength := congrArg List.length h
    rw [length_drop] at hlength
    rcases rest with _ | ⟨p, _ | ⟨c, _ | ⟨d, w⟩⟩⟩
    . contradiction
    . simp only [length_cons, length_nil] at hlength
      omega
    . simp only [length_cons, length_nil] at hlength
      omega
    . exact ⟨p, c, d, w, rfl⟩
  have hw : chars.drop (k + 3) = w := by rw [← drop_drop, h]; rfl
  cases hhead
  refine (read_ends (getElem?_of_drop h 1) _).bind fun c hc => ?_
  refine (read_ends (getElem?_of_drop h 2) _).bind fun d hd => ?_
  subst hc hd
  rw [octets]
  by_cases hhex : IsAsciiHexDigit c ∧ IsAsciiHexDigit d
  . simp only [hhex.1, hhex.2, hw]
    exact rfl
  have hnot : (!IsAsciiHexDigit c || !IsAsciiHexDigit d) = true := by
    rw [Bool.or_eq_true, Bool.not_eq_true', Bool.not_eq_true', ← Bool.not_eq_true, ← Bool.not_eq_true]
    exact not_and_or.mp hhex
  rw [if_pos hnot, if_neg (fun h => hhex h.2)]
  exact ⟨rfl, rfl⟩

theorem readContinuations_ends (hlen : k + 3 * m < chars.length)
    : Ends (readContinuations chars m k) (fun r => r.2 = k + 3 * m ∧ r.1.length = m ∧ (∀ b ∈ r.1, IsContinuation b)
          ∧ octets (chars.drop (k + 1)) = r.1 ++ octets (chars.drop (k + 3 * m + 1)))
        fun e => e = .BadUri ∧ ∀ bs, bs.length = m → (∀ b ∈ bs, IsContinuation b)
          → ¬bs <+: octets (chars.drop (k + 1)) := by
  induction m generalizing k with
  | zero => exact ⟨rfl, rfl, nofun, rfl⟩
  | succ m ih =>
    obtain ⟨c, hc⟩ : ∃ c, chars[k + 1]? = some c := ⟨_, List.getElem?_eq_getElem (by omega)⟩
    have hhead : (chars.drop (k + 1))[0]? = some c := by rw [List.getElem?_drop]; exact hc
    have hfails (h : ∀ b bs, octets (chars.drop (k + 1)) = b :: bs → ¬IsContinuation b) : ∀ bs : List (BitVec 8),
        bs.length = m + 1 → (∀ b ∈ bs, IsContinuation b) → ¬bs <+: octets (chars.drop (k + 1)) := by
      rintro bs hbs hcont ⟨tail, heq⟩
      rcases bs with _ | ⟨b, bs⟩
      . contradiction
      . exact h b _ heq.symm (hcont b mem_cons_self)
    unfold readContinuations
    refine (read_ends hc _).bind fun _ hc' => ?_
    subst hc'
    refine .ite (fun hne => ⟨rfl, hfails fun b bs heq => ?_⟩) fun heq => ?_
    . exfalso
      rcases hdrop : chars.drop (k + 1) with _ | ⟨p, _ | ⟨_, _ | ⟨_, _⟩⟩⟩ <;> rw [hdrop] at heq hhead
      . contradiction
      . contradiction
      . contradiction
      cases hhead
      rw [octets, if_neg (fun h => hne h.1)] at heq
      contradiction
    rw [not_not] at heq
    subst heq
    refine ((readOctet_ends rfl hhead (by omega)).mono (fun _ hB => hB) ?_).bind fun B hB => ?_
    . rintro e ⟨rfl, hnil⟩
      refine ⟨rfl, hfails fun b bs heq => ?_⟩
      rw [hnil] at heq
      contradiction
    refine .ite (fun hne => ⟨rfl, hfails fun b bs heq => ?_⟩) fun hcont => ?_
    . rw [hB] at heq
      cases heq
      exact fun h => hne ((and_0xC0_eq_iff _).mpr h)
    rw [not_not] at hcont
    refine ((ih (k := k + 3) (by omega)).mono (fun _ h => h) ?_).bind fun r hr => ?_
    . rintro e ⟨rfl, hnot⟩
      refine ⟨rfl, fun bs hbs hall hstart => ?_⟩
      rcases bs with _ | ⟨b, bs⟩
      . contradiction
      rw [hB, cons_prefix_cons] at hstart
      exact hnot bs (Nat.succ.inj hbs) (fun b hb => hall b (mem_cons_of_mem _ hb)) hstart.2
    . obtain ⟨hk, hlength, hall, heq⟩ := hr
      refine ⟨by rw [hk]; omega, congrArg (· + 1) hlength, ?_, ?_⟩
      . exact forall_mem_cons.mpr ⟨(and_0xC0_eq_iff _).mp hcont, hall⟩
      . rw [hB, heq, show k + 3 + 3 * m + 1 = k + 3 * (m + 1) + 1 by omega]
        rfl

theorem encode_eq_cons (hc : c ≤ 0x10FFFF) (hB : 0x80 ≤ B.toNat) (h : encode c = B :: bs)
    : sequenceLength B = bs.length + 1 ∧ 1 ≤ bs.length ∧ bs.length ≤ 3 ∧ ∀ b ∈ bs, IsContinuation b := by
  have htail : ∀ b ∈ bs, IsContinuation b := by
    intro b hb
    apply @isContinuation_of_mem_tail c
    rw [h]
    exact hb
  rw [sequenceLength_eq B hB]
  unfold encode at h
  split at h
  . cases h
    rw [toNat_ofNat_byte (by omega)] at hB
    omega
  split at h
  . cases h
    rw [toNat_ofNat_byte (by omega), if_neg (by omega), if_pos (by omega)]
    exact ⟨rfl, by simp, by simp, htail⟩
  split at h
  . cases h
    rw [toNat_ofNat_byte (by omega), if_neg (by omega), if_neg (by omega), if_pos (by omega)]
    exact ⟨rfl, by simp, by simp, htail⟩
  cases h
  rw [toNat_ofNat_byte (by omega), if_neg (by omega), if_neg (by omega), if_neg (by omega), if_pos (by omega)]
  exact ⟨rfl, by simp, by simp, htail⟩

theorem ucs4_spec (hB : 0x80 ≤ B.toNat) (hn : sequenceLength B = bs.length + 1) (hpos : 1 ≤ bs.length)
    (hle : bs.length ≤ 3) (hcont : ∀ b ∈ bs, IsContinuation b) (hv : Utf8ToOneUcs4CharImpl .UTF8Chars (B :: bs) = v)
    : (v ≤ 0x10FFFF → IsScalarValue v ∧ encode v = B :: bs) ∧ ∀ c, IsScalarValue c → encode c = B :: bs → v = c := by
  obtain ⟨least, value, hcheck, hencode, hvalue⟩ : ∃ least value, v = checkUcs4 .UTF8Chars least value
      ∧ (least ≤ value → encode value = B :: bs)
      ∧ ∀ c ≤ 0x10FFFF, encode c <+: B :: bs → c = value ∧ least ≤ c := by
    rw [sequenceLength_eq B hB] at hn
    subst hv
    rcases bs with _ | ⟨b₁, _ | ⟨b₂, _ | ⟨b₃, _ | ⟨b₄, bs⟩⟩⟩⟩
    . contradiction
    . have hlead : 0xC0 ≤ B.toNat ∧ B.toNat < 0xE0 := by
        simp only [length_cons, length_nil] at hn
        split_ifs at hn <;> omega
      have h₁ := hcont b₁ (by simp)
      refine ⟨0x80, value₂ B b₁, ucs4_two hlead h₁, encode_value₂ hlead h₁, fun c hc h => ?_⟩
      rcases encode_prefix_cases hc h with h | ⟨-, -, _, _, hbs, -, h⟩ | h | h
      . omega
      . cases hbs
        exact h
      . omega
      . omega
    . have hlead : 0xE0 ≤ B.toNat ∧ B.toNat < 0xF0 := by
        simp only [length_cons, length_nil] at hn
        split_ifs at hn <;> omega
      have h₁ := hcont b₁ (by simp)
      have h₂ := hcont b₂ (by simp)
      refine ⟨0x800, value₃ B b₁ b₂, ucs4_three hlead h₁ h₂, encode_value₃ hlead h₁ h₂, fun c hc h => ?_⟩
      rcases encode_prefix_cases hc h with h | h | ⟨-, -, _, _, _, hbs, -, -, h⟩ | h
      . omega
      . omega
      . cases hbs
        exact h
      . omega
    . have hlead : 0xF0 ≤ B.toNat ∧ B.toNat < 0xF8 := by
        simp only [length_cons, length_nil] at hn
        split_ifs at hn <;> omega
      have h₁ := hcont b₁ (by simp)
      have h₂ := hcont b₂ (by simp)
      have h₃ := hcont b₃ (by simp)
      refine ⟨0x10000, value₄ B b₁ b₂ b₃, ucs4_four hlead h₁ h₂ h₃, encode_value₄ hlead h₁ h₂ h₃, fun c hc h => ?_⟩
      rcases encode_prefix_cases hc h with h | h | h | ⟨-, -, _, _, _, _, hbs, -, -, -, h⟩
      . omega
      . omega
      . omega
      . cases hbs
        exact h
    . simp only [length_cons] at hle
      omega
  by_cases hallowed : least ≤ value ∧ InputChars.Allows .UTF8Chars value
  . rw [checkUcs4_allowed hallowed.1 hallowed.2] at hcheck
    subst hcheck
    exact ⟨fun _ => ⟨hallowed.2, hencode hallowed.1⟩, fun c hc h => (hvalue c hc.1 (by rw [h])).1.symm⟩
  have hbig := lt_checkUcs4 hallowed
  refine ⟨fun hle => by omega, fun c hc h => ?_⟩
  obtain ⟨rfl, hleast⟩ := hvalue c hc.1 (by rw [h])
  exact absurd ⟨hleast, hc⟩ hallowed

def valueAt (reservedSet : Option (CharT → Bool)) (rest : List CharT) (c : Nat) : List CharT :=
  if c < 128 && reservedSet.any (· (.ofNat 16 c)) then rest.take 3 else utf16 c

variable {reservedSet : Option (CharT → Bool)}

theorem length_octets (w : List CharT) : 3 * (octets w).length ≤ w.length := by
  fun_induction octets w with
  | case1 p c d w h ih =>
    simp only [length_cons]
    omega
  | case2 => exact Nat.zero_le _
  | case3 => exact Nat.zero_le _

theorem length_valueAt : (valueAt reservedSet rest c).length ≤ 3 * (encode c).length := by
  have hpos := length_pos_iff.mpr (@encode_ne_nil c)
  unfold valueAt
  split
  . rw [length_take]
    omega
  unfold utf16
  split
  . simp only [length_cons, length_nil]
    omega
  . simp only [length_cons, length_nil]
    omega

theorem decodeEscape_ends (h : Built chars sb startAppend k out) (hrest : chars.drop k = rest)
    (hhead : rest[0]? = some (unit '%')) (hout : out.length ≤ k) (hn : chars.length ≤ n)
    : Ends (decodeEscape granted reservedSet chars sb startAppend k)
        (fun r => ∃ c, IsScalarValue c ∧ encode c <+: octets rest ∧ r.2.2 + 1 = k + 3 * (encode c).length
          ∧ Built chars r.1 r.2.1 (r.2.2 + 1) (out ++ valueAt reservedSet rest c))
        (Fails granted (¬Begins IsScalarValue (octets rest)) n) := by
  have hlength : chars.length = k + rest.length := by
    rw [← hrest, length_drop]
    have := h.le_length
    omega
  have hmax := length_octets rest
  have hnil (hnil : octets rest = []) : ¬Begins IsScalarValue (octets rest) := by
    rintro ⟨c, -, hstart⟩
    rw [hnil, prefix_nil] at hstart
    exact encode_ne_nil hstart
  have hdone {c : Nat} (hc : IsScalarValue c) (hstart : encode c <+: octets rest)
      (hkept : ¬(c < 128 && reservedSet.any (· (.ofNat 16 c))) = true) {r : List CharT × Nat × Nat}
      (hr : r = (out ++ utf16 c, k + 3 * (encode c).length, k + 3 * (encode c).length - 1))
      : ∃ c, IsScalarValue c ∧ encode c <+: octets rest ∧ r.2.2 + 1 = k + 3 * (encode c).length
          ∧ Built chars r.1 r.2.1 (r.2.2 + 1) (out ++ valueAt reservedSet rest c) := by
    have hle := hstart.length_le
    have hpos := length_pos_iff.mpr (@encode_ne_nil c)
    subst hr
    dsimp only
    refine ⟨c, hc, hstart, Nat.sub_add_cancel (by omega), ?_⟩
    rw [valueAt, if_neg hkept, Nat.sub_add_cancel (by omega)]
    exact .restart (append_ne_nil_of_right_ne_nil _ utf16_ne_nil) (by omega) (by omega)
  unfold decodeEscape
  refine .ite (fun hshort => hnil (octets_of_length_le (by omega))) fun hlong => ?_
  refine ((readOctet_ends hrest hhead (by omega)).mono (fun _ hB => hB) ?_).bind fun B hB => ?_
  . rintro e ⟨rfl, heq⟩
    exact hnil heq
  refine .ite (fun hascii => .ite (fun hreserved => ?_) fun hnot => ?_) fun hlead => ?_
  . have hencode := encode_toNat hascii
    refine ⟨B.toNat, ⟨by omega, by omega⟩, ?_, by rw [hencode]; rfl, ?_⟩
    . rw [hencode, hB]
      exact prefix_append [B] _
    . rw [valueAt, BitVec.ofNat_toNat, hreserved, decide_eq_true hascii, ← hrest]
      exact h.keep (n := 3) (by omega)
  . have hencode := encode_toNat hascii
    have hutf16 : utf16 B.toNat = [B.setWidth 16] := by
      rw [utf16, if_pos (by omega), BitVec.ofNat_toNat]
    refine (h.flush false (by omega) (fun h => by cases h)).bind fun _ hsb => ?_
    subst hsb
    refine (append_ends (by simp only [length_singleton]; omega)).bind fun _ hsb => ?_
    refine hdone (c := B.toNat) ⟨by omega, by omega⟩ ?_ ?_ ?_
    . rw [hencode, hB]
      exact prefix_append [B] _
    . rw [BitVec.ofNat_toNat, Bool.and_eq_true]
      exact fun h => hnot h.2
    . rw [hencode, hutf16, ← hsb]
      rfl
  have hB' : 0x80 ≤ B.toNat := Nat.not_lt.mp hlead
  have hbegins (hb : Begins IsScalarValue (octets rest)) : ∃ c bs, IsScalarValue c ∧ encode c = B :: bs
      ∧ bs <+: octets (chars.drop (k + 3)) := by
    obtain ⟨c, hc, hstart⟩ := hb
    rcases hencode : encode c with _ | ⟨b, bs⟩
    . exact absurd hencode encode_ne_nil
    . rw [hencode, hB, cons_prefix_cons] at hstart
      exact ⟨c, bs, hc, by rw [hencode, hstart.1], hstart.2⟩
  refine .ite (fun hbad hb => ?_) fun hsize => ?_
  . obtain ⟨c, bs, hc, hencode, -⟩ := hbegins hb
    have := encode_eq_cons hc.1 hB' hencode
    omega
  have hrest3 := length_octets (chars.drop (k + 3))
  rw [length_drop] at hrest3
  refine .ite (fun hshort hb => ?_) fun hfits => ?_
  . obtain ⟨c, bs, hc, hencode, hstart⟩ := hbegins hb
    have := encode_eq_cons hc.1 hB' hencode
    have := hstart.length_le
    omega
  refine ((readContinuations_ends (by omega)).mono (fun _ hr => hr) ?_).bind fun r hr => ?_
  . rintro e ⟨rfl, hnone⟩ hb
    obtain ⟨c, bs, hc, hencode, hstart⟩ := hbegins hb
    obtain ⟨hsequence, -, -, hcont⟩ := encode_eq_cons hc.1 hB' hencode
    exact hnone bs (by omega) hcont hstart
  obtain ⟨bs, k'⟩ := r
  obtain ⟨rfl, hbs, hcont, hoctets⟩ := hr
  dsimp only at hbs hcont hoctets
  have hsequence : sequenceLength B = bs.length + 1 := by
    have : 1 < sequenceLength B := by
      rw [sequenceLength_eq B hB']
      rw [sequenceLength_eq B hB'] at hsize
      split_ifs at hsize ⊢ <;> omega
    omega
  refine (h.flush false (by omega) (fun h => by cases h)).bind fun _ hsb => ?_
  subst hsb
  obtain ⟨v, hv⟩ : ∃ v, Utf8ToOneUcs4CharImpl .UTF8Chars (B :: bs) = v := ⟨_, rfl⟩
  obtain ⟨hgood, hunique⟩ := ucs4_spec hB' hsequence (by omega) (by omega) hcont hv
  dsimp only
  rw [hv]
  have hvalid (hle : v ≤ 0x10FFFF) : IsScalarValue v ∧ encode v <+: octets rest ∧ (encode v).length = bs.length + 1
      ∧ ¬(v < 128 && reservedSet.any (· (.ofNat 16 v))) = true := by
    obtain ⟨hscalar, hencode⟩ := hgood hle
    refine ⟨hscalar, ?_, by rw [hencode]; rfl, fun h => ?_⟩
    . rw [hencode, hB, cons_prefix_cons, hoctets]
      exact ⟨rfl, prefix_append _ _⟩
    rw [Bool.and_eq_true, decide_eq_true_eq] at h
    rw [encode_of_ascii h.1] at hencode
    cases hencode
    rw [toNat_ofNat_byte (by omega)] at hB'
    omega
  refine .ite (fun hsupplementary => .ite (fun hbig hb => ?_) fun hle => ?_) fun hbmp => ?_
  . obtain ⟨c, bs', hc, hencode, hstart⟩ := hbegins hb
    obtain ⟨hsequence', -⟩ := encode_eq_cons hc.1 hB' hencode
    rw [hoctets] at hstart
    have heq : bs' = bs := (prefix_of_prefix_length_le hstart (prefix_append _ _) (by omega)).eq_of_length (by omega)
    have := hunique c hc (heq ▸ hencode)
    unfold NonBMPMax at hbig
    have := hc.1
    omega
  . unfold NonBMPMin NonBMPMax at *
    obtain ⟨hscalar, hstart, hlen, hkept⟩ := hvalid (by omega)
    refine (append_ends (by simp only [length_singleton]; omega)).bind fun _ hsb => ?_
    subst hsb
    refine (append_ends (by simp only [length_append, length_singleton]; omega)).bind fun _ hsb => ?_
    refine hdone hscalar hstart hkept ?_
    rw [hlen, ← surrogates_eq_utf16 hsupplementary (by omega), hsb, append_assoc]
    exact Prod.ext rfl (Prod.ext (by dsimp only; omega) (by dsimp only; omega))
  . unfold NonBMPMin at hbmp
    obtain ⟨hscalar, hstart, hlen, hkept⟩ := hvalid (by omega)
    refine (append_ends (by simp only [length_singleton]; omega)).bind fun _ hsb => ?_
    refine hdone hscalar hstart hkept ?_
    rw [hlen, utf16, if_pos (by omega), hsb]
    exact Prod.ext rfl (Prod.ext (by dsimp only; omega) (by dsimp only; omega))

end Decode

section Encode

inductive Paired : List CharT → Prop where
  | nil : Paired []
  | unit {c : CharT} {s : List CharT} : ¬CharacterEncoding.IsSurrogate c.toNat → Paired s → Paired (c :: s)
  | pair {c d : CharT} {s : List CharT} : IsLeadSurrogate c → IsTrailSurrogate d → Paired s → Paired (c :: d :: s)

def escapeOctet (b : BitVec 8) : List CharT :=
  ['%', HexDigits.getD (b >>> 4).toNat 0, HexDigits.getD (b &&& 0xF).toNat 0]

theorem octets_escapeOctet (b : BitVec 8) (w : List CharT) : octets (escapeOctet b ++ w) = b :: octets w := by
  have hdigits : ∀ b : BitVec 8, IsAsciiHexDigit (HexDigits.getD (b >>> 4).toNat 0) = true
      ∧ IsAsciiHexDigit (HexDigits.getD (b &&& 0xF).toNat 0) = true
      ∧ BitVec.ofNat 8 (AsciiAlphanumericToNumber (HexDigits.getD (b >>> 4).toNat 0) * 16
        + AsciiAlphanumericToNumber (HexDigits.getD (b &&& 0xF).toNat 0)) = b := by
    decide
  obtain ⟨hhigh, hlow, hvalue⟩ := hdigits b
  rw [escapeOctet, cons_append, cons_append, cons_append, nil_append, octets, if_pos ⟨rfl, hhigh, hlow⟩, hvalue]

theorem octets_escapes (bs : List (BitVec 8)) (w : List CharT)
    : octets (bs.flatMap escapeOctet ++ w) = bs ++ octets w := by
  induction bs with
  | nil => rfl
  | cons b bs ih => rw [flatMap_cons, append_assoc, octets_escapeOctet, ih, cons_append]

theorem length_escapes (bs : List (BitVec 8)) : (bs.flatMap escapeOctet).length = 3 * bs.length := by
  induction bs with
  | nil => rfl
  | cons b bs ih =>
    rw [flatMap_cons, length_append, ih, length_cons, Nat.mul_succ, Nat.add_comm]
    rfl

theorem appendEncoded_all {bs : List (BitVec 8)} (h : sb.length + 3 * bs.length ≤ n)
    : Ends (bs.foldlM (appendEncoded granted) sb) (· = sb ++ bs.flatMap escapeOctet) (Fails granted bad n) := by
  induction bs generalizing sb with
  | nil => exact (append_nil sb).symm
  | cons b bs ih =>
    rw [length_cons] at h
    rw [foldlM_cons]
    have hlength (b : BitVec 8) : (escapeOctet b).length = 3 := rfl
    refine (append_ends (w := escapeOctet b) (by rw [hlength]; omega)).bind fun _ hsb => ?_
    subst hsb
    refine (ih (by rw [length_append, hlength]; omega)).mono (fun _ h => ?_) fun _ he => he
    rw [h, flatMap_cons, append_assoc]

theorem or_0x80 (n : Nat) : (n &&& 0x3F) ||| 0x80 = 0x80 + n % 64 := by
  have hmask : n &&& 0x3F = n % 64 := Nat.and_two_pow_sub_one_eq_mod n 6
  have hor := Nat.shiftLeft_add_eq_or_of_lt (show n % 64 < 2 ^ 7 by omega) 1
  rw [hmask, Nat.or_comm]
  exact hor.symm

theorem OneUcs4ToUtf8Char_eq (hc : c ≤ 0x10FFFF) : OneUcs4ToUtf8Char c = encode c := by
  have hshift (m n : Nat) : m >>> n = m / 2 ^ n := Nat.shiftRight_eq_div_pow m n
  unfold OneUcs4ToUtf8Char encode
  split
  next => rfl
  next hascii =>
    by_cases htwo : c < 0x800
    . have hlength : utf8LengthFrom 7 (c >>> 11) 2 = 2 := by
        rw [utf8LengthFrom, hshift, if_neg (by omega)]
      rw [if_pos htwo, hlength]
      simp only [trailingOctets, or_0x80, hshift]
      rfl
    rw [if_neg htwo]
    by_cases hthree : c < 0x10000
    . have hlength : utf8LengthFrom 7 (c >>> 11) 2 = 3 := by
        simp only [utf8LengthFrom, hshift, Nat.div_div_eq_div_mul]
        rw [if_pos (by omega), if_neg (by omega)]
      rw [if_pos hthree, hlength]
      simp only [trailingOctets, or_0x80, hshift, Nat.div_div_eq_div_mul]
      rfl
    have hlength : utf8LengthFrom 7 (c >>> 11) 2 = 4 := by
      simp only [utf8LengthFrom, hshift, Nat.div_div_eq_div_mul]
      rw [if_pos (by omega), if_pos (by omega), if_neg (by omega)]
    rw [if_neg hthree, hlength]
    simp only [trailingOctets, or_0x80, hshift, Nat.div_div_eq_div_mul]
    rfl

end Encode

end SpiderMonkey.URI
