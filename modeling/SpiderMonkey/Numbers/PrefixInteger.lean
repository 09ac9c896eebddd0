import Mathlib.Data.List.TakeWhile
import Mathlib.Data.Nat.Bitwise
import SpiderMonkey.Lib.Radix
import SpiderMonkey.Lib.NearestDouble
import SpiderMonkey.Numbers.Impl.PrefixInteger

/-!
This module contains that integers in power-of-two bases are rounded correctly: the accurate computation sees the same
digits as the fast one, bit by bit.
-/

open List IntegralDouble Horner

namespace SpiderMonkey.PrefixInteger

def IsDigit (base : Nat) (c : CharT) : Prop := IsAsciiAlphanumeric c ∧ AsciiAlphanumericToNumber c < base

instance (base : Nat) : DecidablePred (IsDigit base) := fun _ => inferInstanceAs (Decidable (_ ∧ _))

def IsSeparator (separatorHandling : IntegerSeparatorHandling) (c : CharT) : Prop :=
  c = '_' ∧ separatorHandling = .SkipUnderscore

instance (separatorHandling : IntegerSeparatorHandling) : DecidablePred (IsSeparator separatorHandling) :=
  fun _ => inferInstanceAs (Decidable (_ ∧ _))

def numeral (chars : List CharT) (base : Nat) (separatorHandling : IntegerSeparatorHandling) : List CharT :=
  chars.takeWhile fun c => IsDigit base c ∨ IsSeparator separatorHandling c

def digits (chars : List CharT) : List Nat := (chars.filter (· ≠ unit '_')).map AsciiAlphanumericToNumber

def denoted (chars : List CharT) (base : Nat) : Nat := value base 0 (digits chars)

def SeparatorsPlaced (chars : List CharT) (base : Nat) : Prop :=
  ∀ s, chars[s]? = some (unit '_')
    → 0 < s ∧ (∃ c, chars[s - 1]? = some c ∧ IsDigit base c) ∧ ∃ c, chars[s + 1]? = some c ∧ IsDigit base c

section

variable {chars : List CharT} {base : Nat} {separatorHandling : IntegerSeparatorHandling}

theorem isSeparator_iff : IsSeparator separatorHandling c ↔ c = '_' ∧ separatorHandling = .SkipUnderscore :=
  Iff.rfl

theorem not_isDigit_separator : ¬IsDigit base (unit '_') := by
  rintro ⟨halphanumeric, _⟩
  revert halphanumeric
  decide

theorem IsDigit.ne (h : IsDigit base c) : c ≠ unit '_' := by
  rintro rfl
  exact not_isDigit_separator h

theorem digits_cons (h : c ≠ unit '_') (chars : List CharT)
    : digits (c :: chars) = AsciiAlphanumericToNumber c :: digits chars := by
  have hkept : decide (c ≠ unit '_') = true := decide_eq_true h
  rw [digits, filter_cons, if_pos hkept, map_cons]
  rfl

theorem digits_separator (chars : List CharT) : digits (unit '_' :: chars) = digits chars := by
  rw [digits, filter_cons, if_neg (by decide)]
  rfl

theorem drop_eq_cons (h : chars[s]? = some c) : chars.drop s = c :: chars.drop (s + 1) := by
  obtain ⟨hs, rfl⟩ := List.getElem?_eq_some_iff.mp h
  exact drop_eq_getElem_cons hs

theorem assert_of_neighbours (hs : 0 < s) (hbefore : chars[s - 1]? = some c) (hc : c ≠ unit '_')
    (hafter : chars[s + 1]? = some c') (hc' : c' ≠ unit '_') : AssertWellPlacedNumericSeparator chars s = some () := by
  obtain ⟨hlt, _⟩ := List.getElem?_eq_some_iff.mp hafter
  have hpos : 0 < chars.length := by omega
  have hne : chars[s + 1]? ≠ some (unit '_') := by
    rw [hafter]
    exact fun heq => hc' (Option.some.inj heq)
  have hne' : chars[s - 1]? ≠ some (unit '_') := by
    rw [hbefore]
    exact fun heq => hc (Option.some.inj heq)
  rw [AssertWellPlacedNumericSeparator, guard, if_pos hpos, guard, if_pos hs, guard, if_pos hlt, guard, if_pos hne, guard,
    if_pos hne']
  rfl

theorem SeparatorsPlaced.assert_append (h : SeparatorsPlaced chars base) (hs : chars[s]? = some (unit '_'))
    (rest : List CharT) : AssertWellPlacedNumericSeparator (chars ++ rest) s = some () := by
  obtain ⟨hpos, ⟨c, hbefore, hc⟩, ⟨c', hafter, hc'⟩⟩ := h s hs
  have happend {i : Nat} {c : CharT} (hi : chars[i]? = some c) : (chars ++ rest)[i]? = some c := by
    obtain ⟨hlt, _⟩ := List.getElem?_eq_some_iff.mp hi
    rw [List.getElem?_append_left hlt, hi]
  exact assert_of_neighbours hpos (happend hbefore) hc.ne (happend hafter) hc'.ne

theorem numeral_append_drop (chars : List CharT) (base : Nat) (separatorHandling : IntegerSeparatorHandling)
    : numeral chars base separatorHandling ++ chars.drop (numeral chars base separatorHandling).length = chars := by
  have hprefix := takeWhile_prefix (fun c => decide (IsDigit base c ∨ IsSeparator separatorHandling c)) (l := chars)
  rw [numeral, ← prefix_iff_eq_append]
  exact hprefix

end

section

variable {chars : List CharT} {base : Nat} {separatorHandling : IntegerSeparatorHandling}

theorem numeral_cons (hc : IsDigit base c ∨ IsSeparator separatorHandling c) (rest : List CharT)
    : numeral (c :: rest) base separatorHandling = c :: numeral rest base separatorHandling := by
  rw [numeral, takeWhile_cons, if_pos (decide_eq_true hc)]
  rfl

theorem numeral_stop (hdigit : ¬IsDigit base c) (hseparator : ¬IsSeparator separatorHandling c)
    (rest : List CharT) : numeral (c :: rest) base separatorHandling = [] := by
  have hstop : ¬(decide (IsDigit base c ∨ IsSeparator separatorHandling c) = true) := by
    rw [decide_eq_true_eq]
    exact not_or.mpr ⟨hdigit, hseparator⟩
  rw [numeral, takeWhile_cons, if_neg hstop]

def scan (base : Nat) (d : IntegralDouble) (digit : Nat) : IntegralDouble := (d.mul (.finite base)).add (.finite digit)

theorem accumulate_eq {rest : List CharT}
    (hseparators : ∀ i, (numeral rest base separatorHandling)[i]? = some (unit '_')
      → AssertWellPlacedNumericSeparator chars (s + i) = some ()) (d : IntegralDouble)
    : accumulate chars base separatorHandling rest s d = some (s + (numeral rest base separatorHandling).length,
          (digits (numeral rest base separatorHandling)).foldl (scan base) d) := by
  induction rest generalizing s d with
  | nil => rfl
  | cons c rest ih =>
    have htail (hc : IsDigit base c ∨ IsSeparator separatorHandling c)
        : ∀ i, (numeral rest base separatorHandling)[i]? = some (unit '_')
          → AssertWellPlacedNumericSeparator chars (s + 1 + i) = some () := by
      intro i hi
      rw [Nat.add_assoc, Nat.add_comm 1]
      apply hseparators
      rw [numeral_cons hc, List.getElem?_cons_succ, hi]
    rw [accumulate]
    by_cases hdigit : IsDigit base c
    . rw [if_neg (not_not.mpr hdigit.1), if_neg (Nat.not_le.mpr hdigit.2), ih (htail (.inl hdigit)),
        numeral_cons (.inl hdigit), digits_cons hdigit.ne, foldl_cons, length_cons, Nat.add_assoc, Nat.add_comm 1]
      rfl
    by_cases hseparator : IsSeparator separatorHandling c
    . have hassert : AssertWellPlacedNumericSeparator chars s = some () := by
        apply hseparators 0
        rw [numeral_cons (.inr hseparator), List.getElem?_cons_zero, hseparator.1]
      have hnot : ¬(IsAsciiAlphanumeric c = true) := by
        rw [hseparator.1]
        decide
      rw [if_pos hnot, if_pos (isSeparator_iff.mp hseparator), hassert, some_bind, ih (htail (.inr hseparator)),
        numeral_cons (.inr hseparator), length_cons, hseparator.1, digits_separator, Nat.add_assoc, Nat.add_comm 1]
    . rw [numeral_stop hdigit hseparator]
      by_cases halphanumeric : IsAsciiAlphanumeric c
      . have hge : base ≤ AsciiAlphanumericToNumber c := Nat.not_lt.mp fun hlt => hdigit ⟨halphanumeric, hlt⟩
        rw [if_neg (not_not.mpr halphanumeric), if_pos hge]
        rfl
      . rw [if_pos halphanumeric, if_neg (mt isSeparator_iff.mpr hseparator)]
        rfl

def Approximates (v : Nat) (d : IntegralDouble) : Prop := (v < 2 ^ 53 ∧ d = .finite v) ∨ (2 ^ 53 ≤ v ∧ d.IsLarge)

theorem Approximates.scan (h : Approximates v d) (hbase : 1 ≤ base) (digit : Nat)
    : Approximates (v * base + digit) (scan base d digit) := by
  have hdigit : (0 : Int) ≤ digit := Int.natCast_nonneg digit
  rcases h with ⟨_, rfl⟩ | ⟨hv, hd⟩
  . have hcast : (v : Int) * base = (v * base : Nat) := (Int.natCast_mul ..).symm
    rw [PrefixInteger.scan, mul, hcast]
    by_cases hproduct : v * base < 2 ^ 53
    . rw [round_of_le (by omega), add, ← Int.natCast_add]
      by_cases hsum : v * base + digit < 2 ^ 53
      . exact .inl ⟨hsum, round_of_le (by omega)⟩
      . exact .inr ⟨by omega, round_isLarge (by omega)⟩
    . exact .inr ⟨by omega, add_isLarge (round_isLarge (by omega)) hdigit⟩
  . have hle : v ≤ v * base := Nat.le_mul_of_pos_right v hbase
    exact .inr ⟨by omega, add_isLarge (mul_isLarge hd (by omega)) hdigit⟩

theorem Approximates.foldl (h : Approximates v d) (hbase : 1 ≤ base) (l : List Nat)
    : Approximates (value base v l) (l.foldl (PrefixInteger.scan base) d) := by
  induction l generalizing v d with
  | nil => exact h
  | cons digit l ih => exact ih (h.scan hbase digit)

theorem approximates_zero : Approximates 0 (.finite 0) := .inl ⟨by decide, rfl⟩

theorem Approximates.eq_of_lt (h : Approximates v d) (hlt : v < 2 ^ 53) : d = .finite v := by
  rcases h with ⟨_, hd⟩ | ⟨hge, _⟩
  . exact hd
  . exact absurd hlt (Nat.not_lt.mpr hge)

theorem Approximates.isBelow (h : Approximates v d)
    : (JSON.isBelow d DOUBLE_INTEGRAL_PRECISION_LIMIT).isSome ↔ v < 2 ^ 53 := by
  rcases h with ⟨hv, rfl⟩ | ⟨hv, hd⟩
  . have hlt : (v : Int) < DOUBLE_INTEGRAL_PRECISION_LIMIT := by exact_mod_cast hv
    rw [JSON.isBelow, if_pos hlt]
    exact iff_of_true rfl hv
  cases hd with
  | @finite n hn =>
    have hge : ¬n < (DOUBLE_INTEGRAL_PRECISION_LIMIT : Nat) := by
      rw [DOUBLE_INTEGRAL_PRECISION_LIMIT]
      omega
    rw [JSON.isBelow, if_neg hge]
    exact iff_of_false Bool.false_ne_true (Nat.not_lt.mpr hv)
  | infinity => exact iff_of_false Bool.false_ne_true (Nat.not_lt.mpr hv)

end

section

open BinaryDigitReader

structure IsNumeral (chars : List CharT) (base : Nat) : Prop where
  kinds : ∀ c ∈ chars, IsDigit base c ∨ c = unit '_'
  placed : SeparatorsPlaced chars base

-- The bits that remain to be read: those of the current digit, and those of the digits that follow
structure Reads (chars : List CharT) (k : Nat) (r : BinaryDigitReader) (l : List Nat) : Prop where
  cur_le : r.cur ≤ chars.length
  bits : ∃ j, r.digitMask = 2 ^ j / 2
    ∧ l = bits r.digit j ++ (digits (chars.drop r.cur)).flatMap (bits · k)

variable {chars : List CharT} {k : Nat} {r : BinaryDigitReader}

theorem mask_of_bits (j : Nat) : 2 ^ (j + 1) / 2 = 2 ^ j := by
  rw [Nat.pow_succ, Nat.mul_div_cancel _ (by decide)]

theorem takeBit_eq (h : r.digitMask = 2 ^ j) : r.takeBit = (r.digit / 2 ^ j % 2, { r with digitMask := 2 ^ j / 2 }) := by
  have hbit : (if r.digit &&& 2 ^ j ≠ 0 then 1 else 0) = r.digit / 2 ^ j % 2 := by
    rw [Nat.and_two_pow, Nat.testBit_eq_decide_div_mod_eq]
    rcases Nat.mod_two_eq_zero_or_one (r.digit / 2 ^ j) with hbit | hbit <;> rw [hbit] <;> simp
  rw [takeBit, h, hbit, Nat.shiftRight_one]

theorem IsNumeral.readDigit (h : IsNumeral chars (2 ^ k)) (hcur : r.cur < chars.length)
    : ∃ r', r.readDigit chars (2 ^ k) = some r' ∧ r'.cur ≤ chars.length ∧ r'.digitMask = 2 ^ k / 2
      ∧ digits (chars.drop r.cur) = r'.digit :: digits (chars.drop r'.cur) := by
  obtain ⟨c, hc⟩ : ∃ c, chars[r.cur]? = some c := ⟨_, List.getElem?_eq_getElem hcur⟩
  rcases h.kinds c (mem_of_getElem? hc) with hdigit | rfl
  . have hdrop := digits_cons hdigit.ne (chars.drop (r.cur + 1))
    rw [← drop_eq_cons hc] at hdrop
    rw [BinaryDigitReader.readDigit, hc, some_bind, if_neg hdigit.ne, some_bind]
    dsimp only
    rw [guard, if_pos hdigit.1]
    exact ⟨_, rfl, hcur, rfl, hdrop⟩
  obtain ⟨_, _, ⟨c', hc', hdigit⟩⟩ := h.placed r.cur hc
  have hassert := h.placed.assert_append hc []
  rw [append_nil] at hassert
  obtain ⟨hlt, _⟩ := List.getElem?_eq_some_iff.mp hc'
  have hdrop := digits_separator (chars.drop (r.cur + 1))
  rw [← drop_eq_cons hc, drop_eq_cons hc', digits_cons hdigit.ne] at hdrop
  rw [BinaryDigitReader.readDigit, hc, some_bind, if_pos rfl, hassert, hc']
  dsimp only [some_bind]
  rw [guard, if_pos hdigit.1]
  exact ⟨_, rfl, hlt, rfl, hdrop⟩

theorem Reads.start (chars : List CharT) (k : Nat)
    : Reads chars k { digit := 0, digitMask := 0, cur := 0 } ((digits chars).flatMap (Horner.bits · k)) where
  cur_le := Nat.zero_le _
  bits := ⟨0, rfl, rfl⟩

theorem Reads.takeBit {bit j : Nat} (hcur : r.cur ≤ chars.length) (hmask : r.digitMask = 2 ^ (j + 1) / 2)
    (hl : bit :: l = Horner.bits r.digit (j + 1) ++ (digits (chars.drop r.cur)).flatMap (Horner.bits · k))
    : r.takeBit.1 = bit ∧ Reads chars k r.takeBit.2 l := by
  rw [mask_of_bits] at hmask
  rw [Horner.bits, cons_append, cons_eq_cons] at hl
  rw [takeBit_eq hmask, hl.1]
  exact ⟨rfl, hcur, j, rfl, hl.2⟩

theorem IsNumeral.nextDigit_nil (h : IsNumeral chars (2 ^ k)) (hk : 0 < k) (hr : Reads chars k r [])
    : r.nextDigit chars (2 ^ k) = some (none, r) := by
  obtain ⟨hcur, j, hmask, hl⟩ := hr
  obtain ⟨hbits, hdigits⟩ := append_eq_nil_iff.mp hl.symm
  obtain rfl : j = 0 := by rw [← length_bits r.digit j, hbits, length_nil]
  have hend : r.cur = chars.length := by
    by_contra hne
    obtain ⟨r', _, _, _, hdrop⟩ := h.readDigit (Nat.lt_of_le_of_ne hcur hne)
    rw [hdrop, flatMap_cons, append_eq_nil_iff] at hdigits
    have hlength := length_bits r'.digit k
    rw [hdigits.1, length_nil] at hlength
    omega
  have hzero : r.digitMask = 0 := hmask
  rw [nextDigit, if_pos hzero, if_pos hend]
  rfl

theorem IsNumeral.nextDigit_cons {bit : Nat} (h : IsNumeral chars (2 ^ k)) (hk : 0 < k)
    (hr : Reads chars k r (bit :: l)) : ∃ r', r.nextDigit chars (2 ^ k) = some (some bit, r') ∧ Reads chars k r' l := by
  obtain ⟨hcur, j, hmask, hl⟩ := hr
  cases j with
  | zero =>
    have hne : r.cur ≠ chars.length := by
      intro hend
      rw [hend, drop_length] at hl
      exact cons_ne_nil _ _ hl
    obtain ⟨r', hread, hcur', hmask', hdrop⟩ := h.readDigit (Nat.lt_of_le_of_ne hcur hne)
    rw [hdrop, flatMap_cons] at hl
    obtain ⟨k, rfl⟩ : ∃ m, k = m + 1 := ⟨k - 1, by omega⟩
    obtain ⟨hbit, hr'⟩ := Reads.takeBit hcur' hmask' hl
    have hzero : r.digitMask = 0 := hmask
    rw [nextDigit, if_pos hzero, if_neg hne, hread, ← hbit]
    exact ⟨_, rfl, hr'⟩
  | succ j =>
    have hmask' : r.digitMask ≠ 0 := by
      rw [hmask, mask_of_bits]
      exact (Nat.two_pow_pos j).ne'
    obtain ⟨hbit, hr'⟩ := Reads.takeBit hcur hmask hl
    rw [nextDigit, if_neg hmask', ← hbit]
    exact ⟨_, rfl, hr'⟩

theorem IsNumeral.skipLeadingZeroes {fuel bit : Nat} (h : IsNumeral chars (2 ^ k)) (hk : 0 < k)
    (hr : Reads chars k r l) (hfuel : l.length < fuel) (hl : l.dropWhile (· = 0) = bit :: l')
    : ∃ r', PrefixInteger.skipLeadingZeroes chars (2 ^ k) fuel r = some (some bit, r') ∧ Reads chars k r' l' := by
  induction l generalizing r fuel with
  | nil => exact absurd hl.symm (cons_ne_nil _ _)
  | cons b l ih =>
    obtain ⟨fuel, rfl⟩ : ∃ m, fuel = m + 1 := ⟨fuel - 1, by omega⟩
    obtain ⟨r', hnext, hr'⟩ := h.nextDigit_cons hk hr
    rw [PrefixInteger.skipLeadingZeroes, hnext, some_bind]
    dsimp only
    rw [dropWhile_cons] at hl
    by_cases hb : b = 0
    . rw [if_pos (decide_eq_true hb)] at hl
      rw [if_pos (congrArg some hb)]
      exact ih hr' (Nat.lt_of_succ_lt_succ hfuel) hl
    rw [if_neg (fun htrue => hb (of_decide_eq_true htrue)), cons_eq_cons] at hl
    rw [if_neg (fun heq => hb (Option.some.inj heq)), ← hl.1, ← hl.2]
    exact ⟨r', rfl, hr'⟩

theorem IsNumeral.gather {j v bit : Nat} (h : IsNumeral chars (2 ^ k)) (hk : 0 < k)
    (hr : Reads chars k r l) (hl : ∀ bit ∈ l, bit < 2) (hlength : j ≤ l.length) (hbit : bit = v % 2)
    (hlt : (v + 1) * 2 ^ j ≤ 2 ^ 53)
    : ∃ r', PrefixInteger.gather chars (2 ^ k) j (.finite v) bit r
        = some (.finite (value 2 v (l.take j)), some (value 2 v (l.take j) % 2, r'))
      ∧ Reads chars k r' (l.drop j) := by
  induction j generalizing r v bit l with
  | zero =>
    rw [hbit]
    exact ⟨r, rfl, hr⟩
  | succ j ih =>
    cases l with
    | nil => exact absurd hlength (Nat.not_succ_le_zero j)
    | cons b l =>
      have hb : b < 2 := hl b mem_cons_self
      obtain ⟨r', hnext, hr'⟩ := h.nextDigit_cons hk hr
      have hle : (v * 2 + b + 1) * 2 ^ j ≤ 2 ^ 53 := by
        calc (v * 2 + b + 1) * 2 ^ j ≤ ((v + 1) * 2) * 2 ^ j := Nat.mul_le_mul_right _ (by omega)
          _ = (v + 1) * 2 ^ (j + 1) := by rw [Nat.pow_succ', Nat.mul_assoc]
          _ ≤ 2 ^ 53 := hlt
      have hsmall : v * 2 + b + 1 ≤ 2 ^ 53 := (Nat.le_mul_of_pos_right _ (Nat.two_pow_pos j)).trans hle
      have hstep : ((finite v).mul (.finite 2)).add (.finite b) = .finite (v * 2 + b : Nat) := by
        rw [mul, round_of_le (by omega), add, round_of_le (by omega)]
        norm_cast
      obtain ⟨r'', hgather, hr''⟩ := ih hr' (fun b hb => hl b (mem_cons_of_mem _ hb))
        (Nat.le_of_succ_le_succ hlength) (show b = (v * 2 + b) % 2 by omega) hle
      rw [PrefixInteger.gather, hnext, some_bind]
      dsimp only
      rw [hstep, hgather]
      exact ⟨r'', rfl, hr''⟩

theorem IsNumeral.gatherSticky (h : IsNumeral chars (2 ^ k)) (hk : 0 < k)
    (hr : Reads chars k r l) (hl : ∀ bit ∈ l, bit < 2) (hfuel : l.length < fuel)
    (hsticky : sticky = if v = 0 then 0 else 1)
    : PrefixInteger.gatherSticky chars (2 ^ k) fuel (.round (2 ^ e : Nat)) sticky r
        = some (.round (2 ^ (e + l.length) : Nat), if value 2 v l = 0 then 0 else 1) := by
  induction l generalizing r fuel e v sticky with
  | nil =>
    obtain ⟨fuel, rfl⟩ : ∃ m, fuel = m + 1 := ⟨fuel - 1, by omega⟩
    rw [PrefixInteger.gatherSticky, h.nextDigit_nil hk hr, hsticky]
    rfl
  | cons b l ih =>
    obtain ⟨fuel, rfl⟩ : ∃ m, fuel = m + 1 := ⟨fuel - 1, by omega⟩
    have hb : b < 2 := hl b mem_cons_self
    obtain ⟨r', hnext, hr'⟩ := h.nextDigit_cons hk hr
    have hor : (sticky ||| b) = if v * 2 + b = 0 then 0 else 1 := by
      rw [hsticky]
      obtain rfl | rfl : b = 0 ∨ b = 1 := by omega
      . rcases Nat.eq_zero_or_pos v with rfl | hv
        . rfl
        . rw [if_neg (by omega), if_neg (by omega), Nat.or_zero]
      . rw [if_neg (Nat.succ_ne_zero _)]
        split <;> rfl
    rw [PrefixInteger.gatherSticky, hnext, some_bind]
    dsimp only
    rw [round_two_pow_mul_two, value_cons, length_cons, Nat.add_comm l.length, ← Nat.add_assoc]
    exact ih hr' (fun b hb => hl b (mem_cons_of_mem _ hb)) (Nat.lt_of_succ_lt_succ hfuel) hor

theorem IsNumeral.digits_lt {base : Nat} (h : IsNumeral chars base) : ∀ d ∈ digits chars, d < base := by
  intro d hd
  obtain ⟨c, hc, rfl⟩ := mem_map.mp hd
  obtain ⟨hmem, hne⟩ := mem_filter.mp hc
  exact ((h.kinds c hmem).resolve_right (of_decide_eq_true hne)).2

theorem length_digits_le (chars : List CharT) : (digits chars).length ≤ chars.length := by
  rw [digits, length_map]
  exact length_filter_le ..

structure LeadingBits (l l' : List Nat) (bit2 : Nat) (rest : List Nat) : Prop where
  dropWhile_eq : l.dropWhile (· = 0) = 1 :: l'
  drop_eq : l'.drop 52 = bit2 :: rest
  bits : ∀ bit ∈ l', bit < 2

namespace LeadingBits

variable {l l' rest : List Nat} {bit2 : Nat}

theorem exists_of_le (hl : ∀ bit ∈ l, bit < 2) (hlarge : 2 ^ 53 ≤ value 2 0 l)
    : ∃ l' bit2 rest, LeadingBits l l' bit2 rest := by
  obtain ⟨l', hdrop, hmany⟩ := dropWhile_eq_cons hl hlarge
  have hsub : (1 :: l').Sublist l := hdrop ▸ dropWhile_sublist _
  obtain ⟨bit2, rest, hrest⟩ : ∃ bit2 rest, l'.drop 52 = bit2 :: rest :=
    exists_cons_of_length_pos (by rw [length_drop]; omega)
  exact ⟨l', bit2, rest, hdrop, hrest, fun bit hbit => hl bit (hsub.subset (mem_cons_of_mem _ hbit))⟩

theorem length_eq (h : LeadingBits l l' bit2 rest) : l'.length = 52 + rest.length + 1 := by
  have hlength := congrArg List.length h.drop_eq
  rw [length_drop, length_cons] at hlength
  omega

theorem length_lt (h : LeadingBits l l' bit2 rest) : rest.length < l.length := by
  have hsub : (1 :: l').Sublist l := h.dropWhile_eq ▸ dropWhile_sublist _
  have hle := hsub.length_le
  rw [length_cons, h.length_eq] at hle
  omega

theorem rest_lt (h : LeadingBits l l' bit2 rest) : bit2 < 2 ∧ ∀ bit ∈ rest, bit < 2 := by
  have hmem : ∀ bit ∈ bit2 :: rest, bit < 2 := fun bit hbit => h.bits bit (mem_of_mem_drop (h.drop_eq ▸ hbit))
  exact forall_mem_cons.mp hmem

theorem bounds (h : LeadingBits l l' bit2 rest)
    : 2 ^ 52 ≤ value 2 1 (l'.take 52) ∧ value 2 1 (l'.take 52) < 2 ^ 53 := by
  have htake : (l'.take 52).length = 52 := length_take_of_le (by have := h.length_eq; omega)
  have hlt : value 2 0 (l'.take 52) < 2 ^ (l'.take 52).length :=
    value_lt fun bit hbit => h.bits bit (mem_of_mem_take hbit)
  rw [value_eq, htake] at *
  omega

theorem value_eq (h : LeadingBits l l' bit2 rest)
    : value 2 0 l = (value 2 1 (l'.take 52) * 2 + bit2) * 2 ^ rest.length + value 2 0 rest := by
  have hsplit : l'.take 52 ++ bit2 :: rest = l' := h.drop_eq ▸ take_append_drop 52 l'
  calc Horner.value 2 0 l = Horner.value 2 1 l' := by rw [← Horner.value_dropWhile, h.dropWhile_eq, Horner.value_cons]
    _ = Horner.value 2 1 (l'.take 52 ++ bit2 :: rest) := by rw [hsplit]
    _ = _ := by rw [Horner.value_append, Horner.value_cons, Horner.value_eq]

end LeadingBits

theorem IsNumeral.ComputeAccurateBinaryBaseInteger (h : IsNumeral chars (2 ^ k)) (hk : 0 < k) (hk' : k ≤ 5)
    (hlarge : 2 ^ 53 ≤ denoted chars (2 ^ k))
    : PrefixInteger.ComputeAccurateBinaryBaseInteger chars (2 ^ k) = some (.round (denoted chars (2 ^ k))) := by
  obtain ⟨l, hl⟩ : ∃ l, l = (digits chars).flatMap (Horner.bits · k) := ⟨_, rfl⟩
  have hstart := Reads.start chars k
  have hvalue : Horner.value 2 0 l = denoted chars (2 ^ k) := by
    rw [hl]
    exact Horner.value_flatMap_bits h.digits_lt 0
  have hbits : ∀ bit ∈ l, bit < 2 := by
    rw [hl]
    exact Horner.flatMap_bits_lt _ k
  have hlength : l.length < 5 * chars.length + 1 := by
    rw [hl, length_flatMap_bits, Nat.mul_comm 5]
    exact Nat.lt_succ_of_le (Nat.mul_le_mul (length_digits_le chars) hk')
  rw [← hl] at hstart
  rw [← hvalue] at hlarge ⊢
  obtain ⟨l', bit2, rest, hleading⟩ := LeadingBits.exists_of_le hbits hlarge
  obtain ⟨hge, hlt⟩ := hleading.bounds
  obtain ⟨hbit2, hrest⟩ := hleading.rest_lt
  have hmany : 52 ≤ l'.length := by
    have := hleading.length_eq
    omega
  obtain ⟨r₁, hskip, hr₁⟩ := h.skipLeadingZeroes hk hstart hlength hleading.dropWhile_eq
  obtain ⟨r₂, hgather, hr₂⟩ := h.gather hk hr₁ hleading.bits hmany (show 1 = 1 % 2 from rfl) (by decide)
  rw [hleading.drop_eq] at hr₂
  obtain ⟨r₃, hnext, hr₃⟩ := h.nextDigit_cons hk hr₂
  have htwo : finite 2 = .round (2 ^ 1 : Nat) := (round_of_le (by decide)).symm
  have hsticky := h.gatherSticky (e := 1) hk hr₃ hrest (hleading.length_lt.trans hlength) (show 0 = if 0 = 0 then 0 else 1 from rfl)
  rw [PrefixInteger.ComputeAccurateBinaryBaseInteger, hskip]
  dsimp only [some_bind]
  rw [guard, if_pos rfl, show finite 1 = .finite (1 : Nat) from rfl, hgather]
  dsimp only [some_bind, Option.pure_def]
  rw [hnext]
  dsimp only [some_bind, Option.pure_def]
  rw [htwo, hsticky]
  dsimp only [some_bind, Option.pure_def]
  rw [hleading.value_eq, round_of_bits hge hlt hbit2 (value_lt hrest), Nat.add_comm 1]

end

def significantDigits (chars : List CharT) : List Nat := (digits chars).dropWhile (· = 0)

section

variable {chars : List CharT} {base : Nat} {separatorHandling : IntegerSeparatorHandling}

theorem denoted_eq (chars : List CharT) (base : Nat) : denoted chars base = value base 0 (significantDigits chars) :=
  (value_dropWhile base _).symm

theorem isNumeral_numeral
    (hplaced : separatorHandling = .SkipUnderscore → SeparatorsPlaced (numeral chars base separatorHandling) base)
    : IsNumeral (numeral chars base separatorHandling) base := by
  have hkinds : ∀ c ∈ numeral chars base separatorHandling, IsDigit base c ∨ IsSeparator separatorHandling c :=
    fun c hc => of_decide_eq_true (mem_takeWhile_imp (p := fun c => IsDigit base c ∨ IsSeparator separatorHandling c) hc)
  refine ⟨fun c hc => (hkinds c hc).imp_right And.left, ?_⟩
  by_cases hskip : separatorHandling = .SkipUnderscore
  . exact hplaced hskip
  intro s hs
  rcases hkinds _ (mem_of_getElem? hs) with hdigit | hseparator
  . exact absurd hdigit not_isDigit_separator
  . exact absurd hseparator.2 hskip

theorem exists_exponent : ∀ base ∈ [2, 4, 8, 16, 32], ∃ k ∈ [1, 2, 3, 4, 5], base = 2 ^ k := by
  decide

theorem binaryBase_cases
    : ∀ k ∈ [1, 2, 3, 4, 5], 0 < k ∧ k ≤ 5 ∧ (2 ≤ 2 ^ k ∧ 2 ^ k ≤ 36) ∧ 2 ^ k ≠ 10 ∧ 2 ^ k &&& (2 ^ k - 1) = 0 := by
  decide

theorem IsNumeral.assert (h : IsNumeral (numeral chars base separatorHandling) base)
    : ∀ i, (numeral chars base separatorHandling)[i]? = some (unit '_')
      → AssertWellPlacedNumericSeparator chars (0 + i) = some () := by
  intro i hi
  have hassert := h.placed.assert_append hi (chars.drop (numeral chars base separatorHandling).length)
  rw [numeral_append_drop] at hassert
  rw [Nat.zero_add]
  exact hassert

theorem GetPrefixInteger_eq (hbase : base ∈ [2, 4, 8, 16, 32])
    (ComputeAccurateDecimalInteger : List CharT → Option IntegralDouble)
    (h : IsNumeral (numeral chars base separatorHandling) base)
    : GetPrefixInteger ComputeAccurateDecimalInteger chars base separatorHandling
        = some ((numeral chars base separatorHandling).length, .round (denoted (numeral chars base separatorHandling) base)) := by
  obtain ⟨k, hmem, rfl⟩ := exists_exponent base hbase
  obtain ⟨hk, hk', hrange, hten, hand⟩ := binaryBase_cases k hmem
  have happroximates := approximates_zero.foldl (Nat.two_pow_pos k) (digits (numeral chars (2 ^ k) separatorHandling))
  rw [GetPrefixInteger, guard, if_pos hrange, Option.bind_eq_bind, Option.pure_def, Option.bind_some,
    accumulate_eq h.assert, Nat.zero_add]
  dsimp only [some_bind]
  by_cases hsmall : denoted (numeral chars (2 ^ k) separatorHandling) (2 ^ k) < 2 ^ 53
  . have hexact := happroximates.eq_of_lt hsmall
    rw [if_pos (happroximates.isBelow.mpr hsmall), hexact, round_of_le (by omega)]
    rfl
  have htake : chars.take (numeral chars (2 ^ k) separatorHandling).length = numeral chars (2 ^ k) separatorHandling :=
    (prefix_iff_eq_take.mp ( takeWhile_prefix _)).symm
  rw [if_neg (mt happroximates.isBelow.mp hsmall), if_neg hten, if_pos hand, htake,
    h.ComputeAccurateBinaryBaseInteger hk hk' (Nat.not_lt.mp hsmall)]
  rfl

theorem prefixInteger_nearest (hbase : base ∈ [2, 4, 8, 16, 32])
    (ComputeAccurateDecimalInteger : List CharT → Option IntegralDouble)
    (hplaced : separatorHandling = .SkipUnderscore → SeparatorsPlaced (numeral chars base separatorHandling) base)
    : ∃ dp, GetPrefixInteger ComputeAccurateDecimalInteger chars base separatorHandling
          = some ((numeral chars base separatorHandling).length, dp)
        ∧ IntegralDouble.IsRounded (denoted (numeral chars base separatorHandling) base) dp
        ∧ ∀ chars' separatorHandling',
          (separatorHandling' = .SkipUnderscore → SeparatorsPlaced (numeral chars' base separatorHandling') base)
          → significantDigits (numeral chars' base separatorHandling')
            = significantDigits (numeral chars base separatorHandling)
          → GetPrefixInteger ComputeAccurateDecimalInteger chars' base separatorHandling'
            = some ((numeral chars' base separatorHandling').length, dp) := by
  refine ⟨_, GetPrefixInteger_eq hbase _ (isNumeral_numeral hplaced), round_isRounded _, ?_⟩
  intro chars' separatorHandling' hplaced' hsame
  rw [GetPrefixInteger_eq hbase _ (isNumeral_numeral hplaced'), denoted_eq, denoted_eq, hsame]

theorem separatorsPlaced_of_two
    : SeparatorsPlaced (numeral [unit '1', unit '_', unit 'f', unit 'g'] 16 .SkipUnderscore) 16 := by
  have hnumeral : numeral [unit '1', unit '_', unit 'f', unit 'g'] 16 .SkipUnderscore = [unit '1', unit '_', unit 'f'] := by
    decide
  rw [hnumeral]
  intro s hs
  match s with
  | 0 => exact absurd hs (by decide)
  | 1 => exact ⟨by decide, ⟨unit '1', rfl, by decide⟩, unit 'f', rfl, by decide⟩
  | 2 => exact absurd hs (by decide)
  | s + 3 => exact absurd hs (by rw [List.getElem?_eq_none (by simp)]; exact (nomatch ·))

theorem prefixInteger_nearest_of_two
    : ∃ dp, GetPrefixInteger (fun _ => none) [unit '1', unit '_', unit 'f', unit 'g'] 16 .SkipUnderscore = some (3, dp)
      ∧ IntegralDouble.IsRounded 31 dp := by
  obtain ⟨dp, hresult, hrounded, _⟩ := prefixInteger_nearest (show 16 ∈ [2, 4, 8, 16, 32] by decide)
    (fun _ => none) fun _ => separatorsPlaced_of_two
  exact ⟨dp, hresult, hrounded⟩

end

end SpiderMonkey.PrefixInteger
