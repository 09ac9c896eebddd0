import SpiderMonkey.Lib.OptionBind
import Mathlib.Tactic.IntervalCases
import SpiderMonkey.Frontend.Impl.SourceUnits
import SpiderMonkey.Lib.Segments
import SpiderMonkey.Lib.Utf8

/-!
This module contains what the code points of a source text are, where each of them begins and ends for both encodings,
and the proofs that code points are counted one after the other and that a pointer is retracted to the start of the
code point that it splits. A text may be ill-formed after what has been read of it.
-/

namespace SpiderMonkey.Frontend

def NextUtf8 (units : List Utf8Unit) (a b : Nat) : Prop :=
  ∃ c, Utf8.IsScalarValue c ∧ Utf8.encode c <+: units.drop a ∧ b = a + (Utf8.encode c).length

def SurrogatePairAt (units : List char16_t) (a : Nat) : Prop :=
  ∃ lead trail, units[a]? = some lead ∧ units[a + 1]? = some trail ∧ IsLeadSurrogate lead ∧ IsTrailSurrogate trail

def NextUtf16 (units : List char16_t) (a b : Nat) : Prop :=
  a < units.length ∧ (SurrogatePairAt units a ∧ b = a + 2 ∨ ¬SurrogatePairAt units a ∧ b = a + 1)

def NextUnits : (e : Encoding) → List e.Unit → Nat → Nat → Prop
  | .UTF8 => NextUtf8
  | .UTF16 => NextUtf16

namespace SourceUnits

variable {e : Encoding} (sourceUnits : SourceUnits e)

def NextCodePoint (a b : Nat) : Prop :=
  ∃ k l, NextUnits e sourceUnits.base k l ∧ a = sourceUnits.startOffset + k ∧ b = sourceUnits.startOffset + l

abbrev CodePoints (a b n : Nat) : Prop := Segments.Count sourceUnits.NextCodePoint a b n

def IsBoundary (offset : Nat) : Prop := ∃ n, sourceUnits.CodePoints sourceUnits.startOffset offset n

end SourceUnits

section Utf8

variable {units : List Utf8Unit} {a b c p q r ptr limit : Nat} {unit : Utf8Unit}

theorem isTrailingUnit_iff : IsTrailingUnit unit = true ↔ 0x80 ≤ unit.toNat ∧ unit.toNat < 0xC0 := by
  revert unit
  unfold IsTrailingUnit
  decide

theorem trailing_bits (h : Utf8.IsContinuation unit) : unit.toNat &&& 0b00111111 = unit.toNat - 0x80 := by
  revert unit
  unfold Utf8.IsContinuation
  decide

theorem leadUnitInfo_two (h : 0xC0 ≤ unit.toNat ∧ unit.toNat < 0xE0)
    : leadUnitInfo unit = some (1, 0x80, unit.toNat - 0xC0) := by
  revert unit
  unfold leadUnitInfo
  decide

theorem leadUnitInfo_three (h : 0xE0 ≤ unit.toNat ∧ unit.toNat < 0xF0)
    : leadUnitInfo unit = some (2, 0x800, unit.toNat - 0xE0) := by
  revert unit
  unfold leadUnitInfo
  decide

theorem leadUnitInfo_four (h : 0xF0 ≤ unit.toNat ∧ unit.toNat < 0xF8)
    : leadUnitInfo unit = some (3, 0x10000, unit.toNat - 0xF0) := by
  revert unit
  unfold leadUnitInfo
  decide

theorem shift_or_trailing (h : Utf8.IsContinuation unit) (n : Nat)
    : n <<< 6 ||| (unit.toNat &&& 0b00111111) = n * 64 + (unit.toNat - 0x80) := by
  rw [trailing_bits h]
  unfold Utf8.IsContinuation at h
  rw [← Nat.shiftLeft_add_eq_or_of_lt (by omega), Nat.shiftLeft_eq]

theorem readTrailingUnits_succ {remaining iter n : Nat} (h : units[iter]? = some unit)
    (hunit : Utf8.IsContinuation unit)
    : readTrailingUnits units (remaining + 1) iter n
        = readTrailingUnits units remaining (iter + 1) (n * 64 + (unit.toNat - 0x80)) := by
  rw [readTrailingUnits, h, some_bind, if_pos (isTrailingUnit_iff.mpr hunit), shift_or_trailing hunit]

theorem DecodeOneUtf8CodePoint_eq {iter last k min m : Nat} (hinfo : leadUnitInfo unit = some (k, min, m))
    (hlen : k ≤ last - iter) (hread : readTrailingUnits units k iter m = some (some c)) (hc : Utf8.IsScalarValue c)
    (hmin : min ≤ c) : DecodeOneUtf8CodePoint units unit iter last = some (some c, iter + k) := by
  unfold Utf8.IsScalarValue at hc
  unfold DecodeOneUtf8CodePoint
  rw [hinfo]
  dsimp only
  rw [if_neg (by omega), hread, some_bind]
  dsimp only
  rw [if_neg (by omega), if_neg (by omega)]

theorem advanceUtf8_lead {last iter : Nat} (h : units[a]? = some unit) (hunit : 0x80 ≤ unit.toNat)
    (hdecode : DecodeOneUtf8CodePoint units unit (a + 1) last = some (some c, iter))
    : advanceUtf8 units last a = some iter := by
  have : IsAscii unit = false := by
    unfold IsAscii
    rw [decide_eq_false_iff_not]
    omega
  unfold advanceUtf8
  rw [h, some_bind, if_neg (by rw [this]; exact Bool.false_ne_true), hdecode]
  rfl

theorem length_encode (c : Nat)
    : (Utf8.encode c).length = if c < 0x80 then 1 else if c < 0x800 then 2 else if c < 0x10000 then 3 else 4 := by
  unfold Utf8.encode
  split
  . rfl
  split
  . rfl
  . split <;> rfl

theorem advanceUtf8_encode (hc : Utf8.IsScalarValue c) (h : Utf8.encode c <+: units.drop a)
    (hb : a + (Utf8.encode c).length ≤ b) : advanceUtf8 units b a = some (a + (Utf8.encode c).length) := by
  rw [length_encode] at hb ⊢
  cases hdrop : units.drop a with
  | nil =>
    rw [hdrop] at h
    exact absurd (List.prefix_nil.mp h) Utf8.encode_ne_nil
  | cons lead bytes =>
    have hget (i : Nat) : units[a + i]? = (lead :: bytes)[i]? := by
      rw [← hdrop, List.getElem?_drop]
    rw [hdrop] at h
    rcases Utf8.encode_prefix_cases hc.1 h with ⟨hlead, hv⟩ | ⟨hlo, hhi, b₁, rest, rfl, h₁, hv, hmin⟩
        | ⟨hlo, hhi, b₁, b₂, rest, rfl, h₁, h₂, hv, hmin⟩ | ⟨hlo, hhi, b₁, b₂, b₃, rest, rfl, h₁, h₂, h₃, hv, hmin⟩
    . rw [if_pos (by omega)]
      have hascii : IsAscii lead = true := decide_eq_true hlead
      unfold advanceUtf8
      rw [show units[a]? = some lead from hget 0, some_bind, if_pos hascii]
    . have hlt : c < 0x800 := by
        unfold Utf8.IsContinuation at h₁
        unfold Utf8.value₂ at hv
        omega
      rw [if_neg (by omega), if_pos hlt] at hb ⊢
      refine advanceUtf8_lead (hget 0) (by omega)
        (DecodeOneUtf8CodePoint_eq (leadUnitInfo_two ⟨hlo, hhi⟩) (by omega) ?_ hc hmin)
      rw [readTrailingUnits_succ (hget 1) h₁, hv]
      rfl
    . have hlt : c < 0x10000 := by
        unfold Utf8.IsContinuation at h₁ h₂
        unfold Utf8.value₃ at hv
        omega
      have hvalue : ((lead.toNat - 0xE0) * 64 + (b₁.toNat - 0x80)) * 64 + (b₂.toNat - 0x80) = c := by
        unfold Utf8.value₃ at hv
        omega
      rw [if_neg (by omega), if_neg (by omega), if_pos hlt] at hb ⊢
      refine advanceUtf8_lead (hget 0) (by omega)
        (DecodeOneUtf8CodePoint_eq (leadUnitInfo_three ⟨hlo, hhi⟩) (by omega) ?_ hc hmin)
      rw [readTrailingUnits_succ (hget 1) h₁, readTrailingUnits_succ (hget 2) h₂, readTrailingUnits, hvalue]
    . have hvalue : (((lead.toNat - 0xF0) * 64 + (b₁.toNat - 0x80)) * 64 + (b₂.toNat - 0x80)) * 64
          + (b₃.toNat - 0x80) = c := by
        unfold Utf8.value₄ at hv
        omega
      rw [if_neg (by omega), if_neg (by omega), if_neg (by omega)] at hb ⊢
      refine advanceUtf8_lead (hget 0) (by omega)
        (DecodeOneUtf8CodePoint_eq (leadUnitInfo_four ⟨hlo, hhi⟩) (by omega) ?_ hc hmin)
      rw [readTrailingUnits_succ (hget 1) h₁, readTrailingUnits_succ (hget 2) h₂, readTrailingUnits_succ (hget 3) h₃,
        readTrailingUnits, hvalue]

theorem rewindTrailingUnits_encode (hc : Utf8.IsScalarValue c) (h : Utf8.encode c <+: units.drop q) (hq : q ≤ ptr)
    (hlt : ptr < q + (Utf8.encode c).length) : rewindTrailingUnits units ptr = some q := by
  have hget (i : Nat) (hi : i < (Utf8.encode c).length) : units[q + i]? = some (Utf8.encode c)[i] := by
    rw [← List.getElem?_drop]
    exact List.prefix_iff_getElem?.mp h i hi
  induction ptr, hq using Nat.le_induction with
  | base =>
    have hlead := hget 0 (by omega)
    have hnot : ¬IsTrailingUnit (Utf8.encode c)[0] = true := by
      rw [isTrailingUnit_iff]
      exact Utf8.not_isContinuation_head hc.1 (by omega)
    cases q with
    | zero => rw [rewindTrailingUnits, hlead, some_bind, if_neg hnot]
    | succ q => rw [rewindTrailingUnits, hlead, some_bind, if_neg hnot]
  | succ ptr hle ih =>
    have hi : ptr - q + 1 < (Utf8.encode c).length := by omega
    have hunit : units[ptr + 1]? = some (Utf8.encode c)[ptr - q + 1] := by
      rw [← hget (ptr - q + 1) hi]
      congr 1
      omega
    have htrailing : IsTrailingUnit (Utf8.encode c)[ptr - q + 1] = true := by
      rw [isTrailingUnit_iff]
      apply Utf8.isContinuation_of_mem_tail
      have hmem := List.getElem_mem (l := (Utf8.encode c).tail) (n := ptr - q) (by rw [List.length_tail]; omega)
      rw [List.getElem_tail] at hmem
      exact hmem
    rw [rewindTrailingUnits, hunit, some_bind, if_pos htrailing, ih (by omega)]

theorem isSegmentation_utf8 : Segments.IsSegmentation (NextUtf8 units) where
  lt := by
    rintro a b ⟨c, -, -, rfl⟩
    have := List.length_pos_iff.mpr (@Utf8.encode_ne_nil c)
    omega
  unique := by
    rintro a b b' ⟨c, hc, h, rfl⟩ ⟨c', hc', h', rfl⟩
    rw [Utf8.encode_prefix_unique hc.1 hc'.1 h h']

end Utf8

section Utf16

variable {units : List char16_t} {a b p q r ptr last : Nat}

theorem isSegmentation_utf16 : Segments.IsSegmentation (NextUtf16 units) where
  lt := by
    rintro a b ⟨-, ⟨-, rfl⟩ | ⟨-, rfl⟩⟩ <;> omega
  unique := by
    rintro a b b' ⟨-, ⟨hpair, rfl⟩ | ⟨hpair, rfl⟩⟩ ⟨-, ⟨hpair', rfl⟩ | ⟨hpair', rfl⟩⟩
    . rfl
    . exact absurd hpair hpair'
    . exact absurd hpair' hpair
    . rfl

theorem not_lead_of_trail {unit : char16_t} (h : IsTrailSurrogate unit = true) : IsLeadSurrogate unit = false := by
  unfold IsTrailSurrogate at h
  unfold IsLeadSurrogate
  simp only [Bool.and_eq_true, decide_eq_true_eq] at h
  simp only [Bool.and_eq_false_iff, decide_eq_false_iff_not]
  omega

theorem advanceUtf16_next (h : NextUtf16 units a b) (hb : b ≤ last) (hlast : last ≤ units.length)
    : advanceUtf16 units last a = some b := by
  obtain ⟨hlt, hpair⟩ := h
  have hunit : units[a]? = some units[a] := List.getElem?_eq_getElem hlt
  unfold advanceUtf16
  rw [hunit, some_bind]
  rcases hpair with ⟨⟨lead, trail, hlead, htrail, hislead, histrail⟩, rfl⟩ | ⟨hnot, rfl⟩
  . rw [hunit, Option.some_inj] at hlead
    rw [hlead, if_neg (by rw [hislead]; exact Bool.noConfusion), if_pos (by omega), htrail, some_bind, if_pos histrail]
  cases hislead : IsLeadSurrogate units[a] with
  | false => rw [if_pos rfl]
  | true =>
    rw [if_neg Bool.noConfusion]
    split
    next hnext =>
      have htrail : units[a + 1]? = some units[a + 1] := List.getElem?_eq_getElem (by omega)
      rw [htrail, some_bind, if_neg]
      intro histrail
      exact hnot ⟨_, _, hunit, htrail, hislead, histrail⟩
    next => rfl

theorem retractFromTrail_start (hp : NextUtf16 units p q) (hq : q < units.length)
    : retractFromTrail units q = some q := by
  have hunit : units[q]? = some units[q] := List.getElem?_eq_getElem hq
  unfold retractFromTrail
  rw [hunit, some_bind]
  split
  next htrail =>
    rcases hp with ⟨hlt, ⟨⟨_, second, -, hsecond, -, histrail⟩, rfl⟩ | ⟨hnot, rfl⟩⟩
    . dsimp only
      rw [hsecond, some_bind, not_lead_of_trail histrail, if_neg Bool.noConfusion]
    have hbefore : units[p]? = some units[p] := List.getElem?_eq_getElem hlt
    dsimp only
    rw [hbefore, some_bind, if_neg]
    intro hlead
    exact hnot ⟨_, _, hbefore, hunit, hlead, htrail⟩
  next => rfl

theorem retractFromTrail_next (hp : NextUtf16 units p q) (hq : NextUtf16 units q r) (hle : q ≤ ptr) (hlt : ptr < r)
    : retractFromTrail units ptr = some q := by
  rcases Nat.eq_or_lt_of_le hle with rfl | hgt
  . exact retractFromTrail_start hp hq.1
  obtain ⟨-, ⟨⟨lead, trail, hlead, htrail, hislead, histrail⟩, rfl⟩ | ⟨-, rfl⟩⟩ := hq
  . obtain rfl : ptr = q + 1 := by omega
    unfold retractFromTrail
    rw [htrail, some_bind, if_pos histrail]
    dsimp only
    rw [hlead, some_bind, if_pos hislead]
  . omega

end Utf16

section Units

variable {e : Encoding} {units : List e.Unit} {a b p q r n ptr limit : Nat}

theorem isSegmentation_units (e : Encoding) (units : List e.Unit) : Segments.IsSegmentation (NextUnits e units) :=
  match e with
  | .UTF8 => isSegmentation_utf8
  | .UTF16 => isSegmentation_utf16

theorem le_length_of_next (h : NextUnits e units a b) : b ≤ units.length := by
  cases e with
  | UTF8 =>
    obtain ⟨c, -, hbegins, rfl⟩ := h
    have := hbegins.length_le
    have := List.length_pos_iff.mpr (@Utf8.encode_ne_nil c)
    rw [List.length_drop] at *
    omega
  | UTF16 =>
    obtain ⟨hlt, ⟨⟨_, _, -, hsecond, -⟩, rfl⟩ | ⟨-, rfl⟩⟩ := h
    . obtain ⟨hlt', -⟩ := List.getElem?_eq_some_iff.mp hsecond
      exact hlt'
    . exact hlt

theorem le_add_four_of_next (h : NextUnits e units a b) : b ≤ a + 4 := by
  cases e with
  | UTF8 =>
    obtain ⟨c, -, -, rfl⟩ := h
    rw [length_encode]
    split
    . omega
    split
    . omega
    . split <;> omega
  | UTF16 =>
    obtain ⟨-, ⟨-, rfl⟩ | ⟨-, rfl⟩⟩ := h <;> omega

theorem countWhile_eq {next : Nat → Nat → Prop} (hnext : Segments.IsSegmentation next) {advance : Nat → Option Nat}
    {last rounds : Nat} (hadvance : ∀ a b, next a b → b ≤ last → advance a = some b) (count : Nat)
    (h : Segments.Count next a last n) (hrounds : n < rounds)
    : countWhile advance last rounds a count = some (count + n) := by
  induction h generalizing rounds count with
  | nil a =>
    obtain ⟨rounds, rfl⟩ := Nat.exists_eq_succ_of_ne_zero (Nat.ne_of_gt hrounds)
    rw [countWhile, if_neg (Nat.lt_irrefl _)]
    rfl
  | @cons a b c n hab hbc ih =>
    obtain ⟨rounds, rfl⟩ := Nat.exists_eq_succ_of_ne_zero (Nat.ne_of_gt (Nat.zero_lt_of_lt hrounds))
    have hle := hbc.le hnext
    have hlt := hnext.lt hab
    rw [countWhile, if_pos (by omega), hadvance a b hab hle, some_bind, ih hadvance (count + 1) (by omega)]
    congr 1
    omega

theorem CountCodePoints_eq (h : Segments.Count (NextUnits e units) a b n) : CountCodePoints units a b = some n := by
  have hnext := isSegmentation_units e units
  have hlen := h.add_le hnext
  cases e with
  | UTF8 =>
    unfold CountCodePoints
    dsimp only
    rw [countWhile_eq hnext ?_ 0 h (by omega), Nat.zero_add]
    rintro a' b' ⟨c, hc, hbegins, rfl⟩ hle
    exact advanceUtf8_encode hc hbegins hle
  | UTF16 =>
    rcases Nat.eq_or_lt_of_le (h.le hnext) with rfl | hlt
    . obtain rfl := h.unique hnext (.nil a)
      unfold CountCodePoints
      dsimp only
      rw [countWhile, if_neg (by omega)]
    obtain ⟨_, -, hlast⟩ := h.exists_last hnext hlt
    unfold CountCodePoints
    dsimp only
    rw [countWhile_eq hnext ?_ 0 h (by omega), Nat.zero_add]
    intro a' b' hstep hle
    exact advanceUtf16_next hstep hle (le_length_of_next (e := .UTF16) hlast)

theorem RetractPointerToCodePointBoundary_eq (hp : NextUnits e units p q) (hq : NextUnits e units q r) (hle : q ≤ ptr)
    (hlt : ptr < r) (hlimit : r ≤ limit) : RetractPointerToCodePointBoundary units ptr limit = some q := by
  unfold RetractPointerToCodePointBoundary
  rw [if_neg (by omega)]
  cases e with
  | UTF8 =>
    obtain ⟨c, hc, hbegins, rfl⟩ := hq
    exact rewindTrailingUnits_encode hc hbegins hle hlt
  | UTF16 => exact retractFromTrail_next hp hq hle hlt

end Units

namespace SourceUnits

variable {e : Encoding} {s : SourceUnits e} {a b p q r o n start limit : Nat}

theorem isSegmentation (s : SourceUnits e) : Segments.IsSegmentation s.NextCodePoint where
  lt := by
    rintro a b ⟨k, l, h, rfl, rfl⟩
    have := (isSegmentation_units e s.base).lt h
    omega
  unique := by
    rintro a b b' ⟨k, l, h, rfl, rfl⟩ ⟨k', l', h', heq, rfl⟩
    obtain rfl : k = k' := by omega
    rw [(isSegmentation_units e s.base).unique h h']

theorem le_add_four (h : s.NextCodePoint a b) : b ≤ a + 4 := by
  obtain ⟨k, l, h, rfl, rfl⟩ := h
  have := le_add_four_of_next h
  omega

theorem CodePoints.units (h : s.CodePoints a b n)
    : Segments.Count (NextUnits e s.base) (s.codeUnitPtrAt a) (s.codeUnitPtrAt b) n := by
  unfold codeUnitPtrAt
  induction h with
  | nil a => exact .nil _
  | cons hab _ ih =>
    obtain ⟨k, l, h, rfl, rfl⟩ := hab
    rw [Nat.add_sub_cancel_left] at ih ⊢
    exact .cons h ih

theorem CodePoints.count (h : s.CodePoints a b n)
    : CountCodePoints s.base (s.codeUnitPtrAt a) (s.codeUnitPtrAt b) = some n :=
  CountCodePoints_eq h.units

theorem IsBoundary.start_le (h : s.IsBoundary o) : s.startOffset ≤ o := by
  obtain ⟨n, h⟩ := h
  exact h.le s.isSegmentation

theorem IsBoundary.le_length (h : s.IsBoundary o) : o ≤ s.startOffset + s.base.length := by
  obtain ⟨n, h⟩ := h
  rcases Nat.eq_or_lt_of_le (h.le s.isSegmentation) with rfl | hlt
  . exact Nat.le_add_right _ _
  obtain ⟨b, -, k, l, hnext, -, rfl⟩ := h.exists_last s.isSegmentation hlt
  have := le_length_of_next hnext
  omega

theorem IsBoundary.codePoints (ha : s.IsBoundary a) (hb : s.IsBoundary b) (hle : a ≤ b) : ∃ n, s.CodePoints a b n := by
  obtain ⟨m, ha⟩ := ha
  obtain ⟨n, hb⟩ := hb
  obtain ⟨k, -, h⟩ := ha.rest s.isSegmentation hb hle
  exact ⟨k, h⟩

theorem retract_of_next (hp : s.NextCodePoint p q) (hq : s.NextCodePoint q r) (hle : q ≤ o) (hlt : o < r)
    (hlimit : r ≤ limit)
    : RetractPointerToCodePointBoundary s.base (s.codeUnitPtrAt o) (s.codeUnitPtrAt limit)
        = some (s.codeUnitPtrAt q) := by
  obtain ⟨k, l, hp, rfl, rfl⟩ := hp
  obtain ⟨k', l', hq, heq, rfl⟩ := hq
  obtain rfl : l = k' := by omega
  unfold codeUnitPtrAt
  rw [Nat.add_sub_cancel_left]
  exact RetractPointerToCodePointBoundary_eq hp hq (by omega) (by omega) (by omega)

theorem exists_retract (h : s.CodePoints start limit n) (hlo : start + 4 ≤ o) (hhi : o ≤ limit)
    : ∃ q m, s.CodePoints start q m ∧ Segments.Floor s.NextCodePoint o q
        ∧ RetractPointerToCodePointBoundary s.base (s.codeUnitPtrAt o) (s.codeUnitPtrAt limit)
            = some (s.codeUnitPtrAt q) := by
  have hseg := s.isSegmentation
  rcases Nat.eq_or_lt_of_le hhi with rfl | hlt
  . exact ⟨o, n, h, .self o, if_pos rfl⟩
  obtain ⟨q, m, hq, hfloor⟩ := Segments.exists_floor h (by omega) hhi
  have hqle := hfloor.le
  obtain ⟨k, -, hrest⟩ := hq.rest hseg h (by omega)
  cases hrest with
  | nil => omega
  | @cons _ r _ k hqr hr =>
    have hor : o < r := by
      rcases hfloor with rfl | ⟨-, r', hqr', hlt'⟩
      . exact hseg.lt hqr
      . rw [hseg.unique hqr hqr']
        exact hlt'
    have hfour := le_add_four hqr
    obtain ⟨p, -, hp⟩ := hq.exists_last hseg (by omega)
    exact ⟨q, m, hq, hfloor, retract_of_next hp hqr hqle hor (hr.le hseg)⟩

end SourceUnits

end SpiderMonkey.Frontend
