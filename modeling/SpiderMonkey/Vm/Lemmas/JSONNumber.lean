import SpiderMonkey.Vm.Lemmas.JSONToken
import Mathlib.Data.List.Induction
import Mathlib.Tactic.Ring

/-!
This module contains the lemmas about numbers: which texts `readNumber` reads, and that the fast conversions of
integers agree with the accurate one.
-/

namespace SpiderMonkey.JSON

open List RangedPtr IntegralDouble

variable {D : Type}

/- The conversions of integers. -/

variable {c : CharT}

theorem isAsciiDigit_iff : IsAsciiDigit c = true ↔ 0x30 ≤ c.toNat ∧ c.toNat ≤ 0x39 := by
  simp only [IsAsciiDigit, Bool.and_eq_true, decide_eq_true_eq]

theorem decimal_append (w v : List CharT)
    : decimal (w ++ v) = v.foldl (fun n c => n * 10 + (c.toNat - 0x30)) (decimal w) := by
  rw [decimal, foldl_append]
  rfl

theorem le_foldl_decimal (w : List CharT) (n : Nat) : n ≤ w.foldl (fun n c => n * 10 + (c.toNat - 0x30)) n := by
  induction w generalizing n with
  | nil => exact Nat.le_refl n
  | cons c w ih =>
    have := ih (n * 10 + (c.toNat - 0x30))
    rw [foldl_cons]
    omega

variable {w : List CharT}

theorem decimal_lt (hw : Digits w) : decimal w < 10 ^ w.length := by
  induction w using List.reverseRecOn with
  | nil => exact Nat.one_pos
  | append_singleton w c ih =>
    have hc := hw c (mem_append_right w (mem_singleton_self c))
    have := ih fun d hd => hw d (mem_append_left [c] hd)
    rw [decimal_append, foldl_cons, foldl_nil, length_append, length_singleton, Nat.pow_succ]
    omega

theorem parseDecimalNumber_go (hw : Digits w)
    (h : w.foldl (fun n c => n * 10 + (c.toNat - 0x30)) n < DOUBLE_INTEGRAL_PRECISION_LIMIT)
    : ParseDecimalNumber.go w n = some (w.foldl (fun n c => n * 10 + (c.toNat - 0x30)) n) := by
  induction w generalizing n with
  | nil => rfl
  | cons c w ih =>
    have hc := hw c mem_cons_self
    have hle := le_foldl_decimal w (n * 10 + (c.toNat - 0x30))
    rw [ParseDecimalNumber.go, if_pos (isAsciiDigit_iff.mpr hc)]
    rw [if_pos (Nat.lt_of_le_of_lt hle h)]
    exact ih (fun d hd => hw d (mem_cons_of_mem c hd)) h

variable {conv : Conversions D}

theorem parseDecimalNumber_eq (hne : w ≠ []) (hw : Digits w)
    (hlen : w.length < 16) : ParseDecimalNumber conv w = some (conv.static_cast (decimal w)) := by
  have hlt : decimal w < DOUBLE_INTEGRAL_PRECISION_LIMIT := by
    have h := decimal_lt hw
    have : 10 ^ w.length ≤ 10 ^ 15 := Nat.pow_le_pow_right (by decide) (by omega)
    have : 10 ^ 15 < DOUBLE_INTEGRAL_PRECISION_LIMIT := by decide
    omega
  rw [ParseDecimalNumber, if_neg hne, parseDecimalNumber_go hw hlt]
  rfl

def Accumulates (d : IntegralDouble) (n : Nat) : Prop :=
  n < DOUBLE_INTEGRAL_PRECISION_LIMIT ∧ d = .finite n ∨ DOUBLE_INTEGRAL_PRECISION_LIMIT ≤ n ∧ d.IsLarge

theorem Accumulates.step {n digit : Nat} (h : Accumulates d n) (hdigit : digit < 10)
    : Accumulates ((d.mul (.finite 10)).add (.finite digit)) (n * 10 + digit) := by
  have hlimit : DOUBLE_INTEGRAL_PRECISION_LIMIT = 2 ^ 53 := rfl
  rcases h with ⟨hlt, rfl⟩ | ⟨hle, hlarge⟩
  . rcases Nat.lt_or_ge (n * 10) (2 ^ 53 + 1) with hmul | hmul
    . have hexact : (finite n).mul (.finite 10) = .finite (n * 10 : Int) :=
        round_of_le (by omega)
      rw [hexact]
      rcases Nat.lt_or_ge (n * 10 + digit) (2 ^ 53) with hsum | hsum
      . refine .inl ⟨by omega, ?_⟩
        rw [IntegralDouble.add, IntegralDouble.round_of_le (by omega)]
        rfl
      . exact .inr ⟨by omega, IntegralDouble.round_isLarge (by omega)⟩
    . refine .inr ⟨by omega, IntegralDouble.add_isLarge ?_ (by omega)⟩
      exact IntegralDouble.round_isLarge (by omega)
  . refine .inr ⟨by omega, IntegralDouble.add_isLarge (IntegralDouble.mul_isLarge hlarge (by decide)) (by omega)⟩

theorem digit_number (h : 0x30 ≤ c.toNat ∧ c.toNat ≤ 0x39)
    : IsAsciiAlphanumeric c = true ∧ AsciiAlphanumericToNumber c = c.toNat - 0x30 := by
  rw [IsAsciiAlphanumeric, isAsciiDigit_iff.mpr h, AsciiAlphanumericToNumber, if_pos h]
  exact ⟨rfl, rfl⟩

theorem getFullInteger_go (hw : Digits w) (h : Accumulates d n)
    : ∃ d', GetFullInteger.go w d = some d' ∧ Accumulates d' (w.foldl (fun n c => n * 10 + (c.toNat - 0x30)) n) := by
  induction w generalizing d n with
  | nil => exact ⟨d, rfl, h⟩
  | cons c w ih =>
    have hc := hw c mem_cons_self
    obtain ⟨halnum, hnumber⟩ := digit_number hc
    rw [GetFullInteger.go, hnumber, if_pos ⟨halnum, by omega⟩, foldl_cons]
    exact ih (fun d hd => hw d (mem_cons_of_mem c hd)) (h.step (by omega))

theorem isBelow_of_accumulates (h : Accumulates d n)
    : isBelow d DOUBLE_INTEGRAL_PRECISION_LIMIT = if n < DOUBLE_INTEGRAL_PRECISION_LIMIT then some n else none := by
  rcases h with ⟨hlt, rfl⟩ | ⟨hle, hlarge⟩
  . rw [isBelow, if_pos (by omega), if_pos hlt, Int.toNat_natCast]
  rw [if_neg (by omega)]
  cases hlarge with
  | finite hm =>
    have hlimit : DOUBLE_INTEGRAL_PRECISION_LIMIT = 2 ^ 53 := rfl
    rw [isBelow, if_neg (by omega)]
  | infinity => rfl

def DecimalLiteral.ofInteger (w : List CharT) (hne : w ≠ []) (hw : Digits w)
    (hzero : w.head? = some (unit '0') → w = [unit '0']) : DecimalLiteral where
  integer := w
  fraction := none
  exponent := none
  integer_ne := hne
  integer_all := hw
  integer_zero := hzero

theorem DecimalLiteral.value_ofInteger
    : (ofInteger w hne hw hzero).value = decimal w := by
  simp only [value, ofInteger, fractionDigits, append_nil, exponentValue, length_nil, Int.natCast_zero,
    Int.sub_zero, zpow_zero, mul_one]

theorem DecimalLiteral.text_ofInteger
    : (ofInteger w hne hw hzero).text = w := by
  simp only [text, ofInteger, fractionText, exponentText, append_nil]

variable {nearest : Nearest D}

theorem parseInteger_eq (hconv : conv.Correct nearest)
    (hne : w ≠ []) (hw : Digits w) (hzero : w.head? = some (unit '0') → w = [unit '0'])
    : parseInteger conv w = some (nearest false (DecimalLiteral.ofInteger w hne hw hzero).value) := by
  rw [DecimalLiteral.value_ofInteger, parseInteger]
  split
  . next hlen =>
    have hlen : w.length < 16 := hlen
    rw [parseDecimalNumber_eq hne hw hlen, hconv.static_cast]
    have h := decimal_lt hw
    have : 10 ^ w.length ≤ 10 ^ 15 := Nat.pow_le_pow_right (by decide) (by omega)
    have : 10 ^ 15 < DOUBLE_INTEGRAL_PRECISION_LIMIT := by decide
    omega
  obtain ⟨d, hd, hacc⟩ := getFullInteger_go hw (.inl ⟨by decide, rfl⟩ : Accumulates (.finite 0) 0)
  rw [GetFullInteger, hd, some_bind, isBelow_of_accumulates hacc]
  split
  . next m hm =>
    split at hm
    . next hlt =>
      cases hm
      exact congrArg some (hconv.static_cast _ hlt)
    . cases hm
  . have h := hconv.js_strtod_harder (DecimalLiteral.ofInteger w hne hw hzero)
    rw [DecimalLiteral.text_ofInteger, DecimalLiteral.value_ofInteger] at h
    rw [h]

/- The parts of a number. -/

def Stop (r : List CharT) : Prop :=
  ∀ c, r.head? = some c → IsAsciiDigit c = false ∧ c ≠ unit '.' ∧ c ≠ unit 'e' ∧ c ≠ unit 'E'

def NoDigit (r : List CharT) : Prop := ∀ c, r.head? = some c → IsAsciiDigit c = false

theorem Stop.noDigit (h : Stop r) : NoDigit r := fun c hc => (h c hc).1

variable {p q : CharPtr}

theorem skipDigits (hp : p.Past w q) (hw : Digits w) (hq : NoDigit q.after)
    : p.skipWhile IsAsciiDigit = q :=
  hp.skipWhile (fun c hc => isAsciiDigit_iff.mpr (hw c hc)) hq

theorem exists_digits {next : CharPtr} (hc : IsAsciiDigit c = true) (hnext : p.Past [c] next)
    : ∃ w, w ≠ [] ∧ Digits w ∧ w.head? = some c ∧ p.Past w (next.skipWhile IsAsciiDigit) ∧
        NoDigit (next.skipWhile IsAsciiDigit).after := by
  refine ⟨c :: next.after.takeWhile IsAsciiDigit, cons_ne_nil _ _, ?_, rfl,
    hnext.trans (next.skipWhile_past IsAsciiDigit), ?_⟩
  . intro d hd
    rcases mem_cons.mp hd with rfl | hd
    . exact isAsciiDigit_iff.mp hc
    . exact isAsciiDigit_iff.mp (mem_takeWhile_imp hd)
  . intro d hd
    obtain ⟨ds, hds⟩ := List.head?_eq_some_iff.mp hd
    exact skipWhile_head _ _ hds

theorem readFraction_complete {fraction : Option Fraction} (hp : p.Past (fractionText fraction) q)
    (hq : NoDigit q.after) (hdot : fraction = none → ∀ c, q.after.head? = some c → c ≠ unit '.')
    : (readFraction p : Option (Option (Token D) × CharPtr)) = some (none, q) := by
  cases fraction with
  | none =>
    cases hp.unique (RangedPtr.Past.refl p)
    rw [readFraction]
    match hafter : p.after with
    | [] => rw [isEnd_iff.mpr hafter]; rfl
    | c :: r =>
      rw [isEnd_eq_false hafter, deref_eq hafter, some_bind, if_neg (hdot rfl c (by rw [hafter, List.head?_cons]))]
      rfl
  | some f =>
    obtain ⟨next, hnext, hdigits⟩ := hp.exists_cons
    obtain ⟨w, hne, hw⟩ := f
    cases w with
    | nil => exact absurd rfl hne
    | cons c w =>
      obtain ⟨second, hsecond, hrest⟩ := hdigits.exists_cons
      have hc : IsAsciiDigit c = true := isAsciiDigit_iff.mpr (hw c mem_cons_self)
      rw [readFraction, isEnd_eq_false hp.head, deref_eq hp.head, hnext.inc]
      simp only [Bool.false_eq_true, if_false, some_bind, if_true,
        isEnd_eq_false hdigits.head, deref_eq hdigits.head, hc, Bool.not_true, hsecond.inc,
        skipDigits hrest (fun d hd => hw d (mem_cons_of_mem c hd)) hq]

theorem readFraction_cases (p : CharPtr)
    : (∃ fraction q, p.Past (fractionText fraction) q ∧
        (readFraction p : Option (Option (Token D) × CharPtr)) = some (none, q)) ∨
      ∃ report q, (readFraction p : Option (Option (Token D) × CharPtr)) = some (some (.Error report), q) := by
  match hafter : p.after with
  | [] =>
    refine .inl ⟨none, p, .refl p, ?_⟩
    rw [readFraction, isEnd_iff.mpr hafter]
    rfl
  | c :: r =>
    obtain ⟨next, hnext, _⟩ := RangedPtr.Past.exists_of_after (w := [c]) hafter
    rw [readFraction, isEnd_eq_false hafter, deref_eq hafter, hnext.inc]
    simp only [Bool.false_eq_true, if_false, some_bind]
    split
    . next hdot =>
      subst hdot
      match hnextAfter : next.after with
      | [] =>
        simp only [if_true, isEnd_iff.mpr hnextAfter]
        exact .inr ⟨_, _, rfl⟩
      | d :: r' =>
        obtain ⟨second, hsecond, _⟩ := RangedPtr.Past.exists_of_after (w := [d]) hnextAfter
        simp only [isEnd_eq_false hnextAfter, deref_eq hnextAfter, hsecond.inc, some_bind, Bool.false_eq_true, if_false]
        cases hd : IsAsciiDigit d with
        | true =>
          obtain ⟨w, hne, hw, _, hpast, _⟩ := exists_digits hd hsecond
          exact .inl ⟨some ⟨w, hne, hw⟩, _, hnext.trans hpast, rfl⟩
        | false =>
          exact .inr ⟨_, _, rfl⟩
    . exact .inl ⟨none, p, .refl p, rfl⟩

theorem readExponentDigits_complete (hne : w ≠ []) (hw : Digits w) (hp : p.Past w q)
    (hq : NoDigit q.after) : (readExponentDigits p : Option (Option (Token D) × CharPtr)) = some (none, q) := by
  cases w with
  | nil => exact absurd rfl hne
  | cons c w =>
    obtain ⟨second, hsecond, hrest⟩ := hp.exists_cons
    have hc : IsAsciiDigit c = true := isAsciiDigit_iff.mpr (hw c mem_cons_self)
    rw [readExponentDigits, deref_eq hp.head]
    simp only [Bool.false_eq_true, if_false, some_bind, hc, Bool.not_true, hsecond.inc,
      skipDigits hrest (fun d hd => hw d (mem_cons_of_mem c hd)) hq]

theorem readExponentDigits_cases (h : p.isEnd = false)
    : (∃ w q, w ≠ [] ∧ Digits w ∧ p.Past w q ∧
        (readExponentDigits p : Option (Option (Token D) × CharPtr)) = some (none, q)) ∨
      ∃ report q, (readExponentDigits p : Option (Option (Token D) × CharPtr)) = some (some (.Error report), q) := by
  match hafter : p.after with
  | [] => rw [isEnd_iff.mpr hafter] at h; cases h
  | c :: r =>
    obtain ⟨next, hnext, _⟩ := RangedPtr.Past.exists_of_after (w := [c]) hafter
    rw [readExponentDigits, deref_eq hafter, hnext.inc]
    simp only [some_bind]
    cases hc : IsAsciiDigit c with
    | true =>
      obtain ⟨w, hne, hw, _, hpast, _⟩ := exists_digits hc hnext
      exact .inl ⟨w, _, hne, hw, hpast, rfl⟩
    | false =>
      exact .inr ⟨_, _, rfl⟩

theorem digit_ne_sign (h : IsAsciiDigit c = true) : ¬(c = unit '+' ∨ c = unit '-') := by
  rintro (rfl | rfl) <;> cases h

theorem readExponent_complete {exponent : Option Exponent} (hp : p.Past (exponentText exponent) q)
    (hq : NoDigit q.after) (hletter : exponent = none → ∀ c, q.after.head? = some c → ¬(c = unit 'e' ∨ c = unit 'E'))
    : (readExponent p : Option (Option (Token D) × CharPtr)) = some (none, q) := by
  cases exponent with
  | none =>
    cases hp.unique (RangedPtr.Past.refl p)
    rw [readExponent]
    match hafter : p.after with
    | [] => rw [isEnd_iff.mpr hafter]; rfl
    | c :: r =>
      rw [isEnd_eq_false hafter, deref_eq hafter, some_bind, if_neg (hletter rfl c (by rw [hafter, List.head?_cons]))]
      rfl
  | some e =>
    obtain ⟨letter, sign, w, hcase, hsign, hne, hw⟩ := e
    obtain ⟨next, hnext, hrest⟩ := hp.exists_cons
    rw [readExponent, isEnd_eq_false hp.head, deref_eq hp.head, hnext.inc]
    simp only [Bool.false_eq_true, if_false, some_bind, hcase, if_true]
    cases sign with
    | none =>
      rw [isEnd_eq_false_of_past hrest hne]
      obtain ⟨c, v, rfl⟩ := exists_cons_of_ne_nil hne
      have hc : IsAsciiDigit c = true := isAsciiDigit_iff.mpr (hw c mem_cons_self)
      rw [deref_eq hrest.head, some_bind, if_neg (digit_ne_sign hc)]
      exact readExponentDigits_complete hne hw hrest hq
    | some c =>
      obtain ⟨second, hsecond, hdigits⟩ := hrest.exists_cons
      simp only [isEnd_eq_false hrest.head, deref_eq hrest.head, some_bind, hsign c rfl,
        if_true, hsecond.inc, isEnd_eq_false_of_past hdigits hne, Bool.false_eq_true, if_false]
      exact readExponentDigits_complete hne hw hdigits hq

theorem readExponent_cases (p : CharPtr)
    : (∃ exponent q, p.Past (exponentText exponent) q ∧
        (readExponent p : Option (Option (Token D) × CharPtr)) = some (none, q)) ∨
      ∃ report q, (readExponent p : Option (Option (Token D) × CharPtr)) = some (some (.Error report), q) := by
  match hafter : p.after with
  | [] =>
    refine .inl ⟨none, p, .refl p, ?_⟩
    rw [readExponent, isEnd_iff.mpr hafter]
    rfl
  | letter :: r =>
    obtain ⟨next, hnext, _⟩ := RangedPtr.Past.exists_of_after (w := [letter]) hafter
    rw [readExponent, isEnd_eq_false hafter, deref_eq hafter, hnext.inc]
    simp only [Bool.false_eq_true, if_false, some_bind]
    split
    . next hletter =>
      match hnextAfter : next.after with
      | [] =>
        simp only [if_true, isEnd_iff.mpr hnextAfter]
        exact .inr ⟨_, _, rfl⟩
      | c :: r' =>
        obtain ⟨second, hsecond, _⟩ := RangedPtr.Past.exists_of_after (w := [c]) hnextAfter
        have hend := isEnd_eq_false hnextAfter
        simp only [hend, deref_eq hnextAfter, hsecond.inc, some_bind, Bool.false_eq_true, if_false]
        split
        . next hsign =>
          split
          . exact .inr ⟨_, _, rfl⟩
          next hend' =>
          rw [Bool.not_eq_true] at hend'
          refine (readExponentDigits_cases hend').imp ?_ id
          rintro ⟨w, q, hne, hw, hpast, hrun⟩
          refine ⟨some ⟨letter, some c, w, hletter, ?_, hne, hw⟩, q, hnext.trans (hsecond.trans hpast), hrun⟩
          intro d hd
          cases hd
          exact hsign
        . refine (readExponentDigits_cases hend).imp ?_ id
          rintro ⟨w, q, hne, hw, hpast, hrun⟩
          refine ⟨some ⟨letter, none, w, hletter, ?_, hne, hw⟩, q, hnext.trans hpast, hrun⟩
          intro d hd
          cases hd
    . exact .inl ⟨none, p, .refl p, rfl⟩

/- Whole numbers. -/

theorem skipInteger_complete (hne : w ≠ []) (hw : Digits w)
    (hzero : w.head? = some (unit '0') → w = [unit '0']) (hp : p.Past w q) (hq : NoDigit q.after)
    : skipInteger p = some q := by
  obtain ⟨c, v, rfl⟩ := exists_cons_of_ne_nil hne
  obtain ⟨next, hnext, hrest⟩ := hp.exists_cons
  rw [skipInteger, deref_eq hp.head, hnext.inc]
  simp only [some_bind]
  by_cases hc : c = unit '0'
  . subst hc
    cases hzero rfl
    cases hrest.unique (.refl next)
    rw [if_neg (not_not_intro rfl)]
  . rw [if_pos hc, skipDigits hrest (fun d hd => hw d (mem_cons_of_mem c hd)) hq]

theorem skipInteger_exists (hp : p.after = c :: r) (hc : IsAsciiDigit c = true)
    : ∃ w q, w ≠ [] ∧ Digits w ∧ (w.head? = some (unit '0') → w = [unit '0']) ∧ p.Past w q ∧
        skipInteger p = some q := by
  obtain ⟨next, hnext, _⟩ := RangedPtr.Past.exists_of_after (w := [c]) hp
  rw [skipInteger, deref_eq hp, hnext.inc]
  simp only [some_bind]
  by_cases hzero : c = unit '0'
  . rw [if_neg (not_not_intro hzero)]
    refine ⟨[c], next, cons_ne_nil _ _, ?_, ?_, hnext, rfl⟩
    . intro d hd
      rw [mem_singleton.mp hd]
      exact isAsciiDigit_iff.mp hc
    . rw [hzero]
      exact fun _ => rfl
  . rw [if_pos hzero]
    obtain ⟨w, hne, hw, hhead, hpast, _⟩ := exists_digits hc hnext
    refine ⟨w, _, hne, hw, ?_, hpast, rfl⟩
    intro h
    rw [hhead] at h
    exact absurd (Option.some.inj h) hzero

theorem isIntegral_eq (p : CharPtr)
    : ∃ b, isIntegral p = some b ∧
        (b = true ↔ ∀ c, p.after.head? = some c → c ≠ unit '.' ∧ c ≠ unit 'e' ∧ c ≠ unit 'E') := by
  rw [isIntegral]
  match hp : p.after with
  | [] =>
    rw [isEnd_iff.mpr hp]
    refine ⟨true, rfl, ?_⟩
    simp only [List.head?_nil, reduceCtorEq, false_imp_iff, implies_true]
  | c :: r =>
    rw [isEnd_eq_false hp, deref_eq hp]
    refine ⟨_, rfl, ?_⟩
    simp only [List.head?_cons, Option.some.injEq, forall_eq', decide_eq_true_eq]

theorem noDigit_of_letter (h : c = unit '.' ∨ c = unit 'e' ∨ c = unit 'E')
    : NoDigit (c :: r) := by
  intro d hd
  cases hd
  rcases h with rfl | rfl | rfl <;> rfl

theorem DecimalLiteral.rest_cases (ℓ : DecimalLiteral)
    : fractionText ℓ.fraction ++ exponentText ℓ.exponent = [] ∧ ℓ.fraction = none ∧ ℓ.exponent = none ∨
      ∃ c r, fractionText ℓ.fraction ++ exponentText ℓ.exponent = c :: r ∧
        (c = unit '.' ∨ c = unit 'e' ∨ c = unit 'E') := by
  cases hf : ℓ.fraction with
  | some f => exact .inr ⟨unit '.', _, rfl, .inl rfl⟩
  | none =>
    cases he : ℓ.exponent with
    | none => exact .inl ⟨rfl, rfl, rfl⟩
    | some e => exact .inr ⟨e.letter, _, rfl, .inr e.letter_eq⟩

theorem applySign_eq (hconv : conv.Correct nearest) (negative : Bool)
    (q : Rat) : applySign conv negative (nearest false q) = nearest negative q := by
  cases negative with
  | false => rfl
  | true => exact hconv.neg q

theorem readMagnitude_complete (hconv : conv.Correct nearest)
    {negative : Bool} {ℓ : DecimalLiteral} (hp : p.Past ℓ.text q) (hq : Stop q.after)
    : readMagnitude conv negative p = some (.Number (nearest negative ℓ.value), q) := by
  obtain ⟨current, hinteger, hrest⟩ := hp.exists_split
  obtain ⟨middle, hfraction, hexponent⟩ := hrest.exists_split
  obtain ⟨c, v, hcons⟩ := exists_cons_of_ne_nil ℓ.integer_ne
  have hc : IsAsciiDigit c = true := isAsciiDigit_iff.mpr (ℓ.integer_all c (by rw [hcons]; exact mem_cons_self))
  have hhead : p.after = c :: (v ++ current.after) := by rw [hinteger.after, hcons]; rfl
  have hnoDigit : NoDigit current.after := by
    rcases ℓ.rest_cases with ⟨hnil, _, _⟩ | ⟨c, r, hr, hc⟩
    . rw [hrest.after, hnil]
      exact hq.noDigit
    . rw [hrest.after, hr]
      exact noDigit_of_letter hc
  obtain ⟨b, hb, hiff⟩ := isIntegral_eq current
  rw [readMagnitude, deref_eq hhead]
  simp only [some_bind, hc, Bool.not_true, Bool.false_eq_true, if_false, hb,
    skipInteger_complete ℓ.integer_ne ℓ.integer_all ℓ.integer_zero hinteger hnoDigit]
  rcases ℓ.rest_cases with ⟨hnil, hf, he⟩ | ⟨c, r, hr, hc⟩
  . rw [hnil] at hrest
    cases hrest.unique (.refl current)
    have hb : b = true := hiff.mpr fun c hc => (hq c hc).2
    have hvalue : ℓ = .ofInteger ℓ.integer ℓ.integer_ne ℓ.integer_all ℓ.integer_zero := by
      obtain ⟨integer, fraction, exponent, _, _, _⟩ := ℓ
      cases hf
      cases he
      rfl
    rw [if_pos hb, hinteger.since, parseInteger_eq hconv ℓ.integer_ne ℓ.integer_all ℓ.integer_zero, some_bind,
      applySign_eq hconv, ← hvalue]
  have hb : ¬b = true := by
    intro hb
    have := hiff.mp hb c (by rw [hrest.after, hr]; rfl)
    rcases hc with rfl | rfl | rfl <;> simp only [ne_eq, not_true_eq_false, and_false, false_and] at this
  have hmiddle : NoDigit middle.after := by
    rw [hexponent.after]
    cases hexp : ℓ.exponent with
    | none => exact hq.noDigit
    | some e => exact noDigit_of_letter (.inr e.letter_eq)
  have hdot : ℓ.fraction = none → ∀ c, middle.after.head? = some c → c ≠ unit '.' := by
    intro _ d hd
    rw [hexponent.after] at hd
    cases hexp : ℓ.exponent with
    | none =>
      rw [hexp] at hd
      exact (hq d hd).2.1
    | some e =>
      rw [hexp] at hd
      cases hd
      rcases e.letter_eq with h | h <;> (rw [h]; decide)
  have hletter : ℓ.exponent = none → ∀ c, q.after.head? = some c → ¬(c = unit 'e' ∨ c = unit 'E') := by
    intro _ d hd
    have := (hq d hd).2.2
    exact not_or.mpr this
  rw [if_neg hb, readFraction_complete hfraction hmiddle hdot]
  simp only [some_bind, readExponent_complete hexponent hq.noDigit hletter]
  rw [FullStringToDouble, hp.since, hconv.js_strtod_harder, applySign_eq hconv]

theorem readMagnitude_cases (hconv : conv.Correct nearest) {negative : Bool} (h : p.isEnd = false)
    : (∃ (ℓ : DecimalLiteral) (q : CharPtr), p.Past ℓ.text q ∧
        readMagnitude conv negative p = some (.Number (nearest negative ℓ.value), q)) ∨
      ∃ report q, readMagnitude conv negative p = some (.Error report, q) := by
  match hp : p.after with
  | [] => rw [isEnd_iff.mpr hp] at h; cases h
  | c :: r =>
    rw [readMagnitude, deref_eq hp]
    simp only [some_bind]
    cases hc : IsAsciiDigit c with
    | false => exact .inr ⟨_, _, rfl⟩
    | true =>
      obtain ⟨w, current, hne, hw, hzero, hinteger, hskip⟩ := skipInteger_exists hp hc
      obtain ⟨b, hb, _⟩ := isIntegral_eq current
      simp only [Bool.not_true, Bool.false_eq_true, if_false, hskip, some_bind, hb]
      cases b with
      | true =>
        refine .inl ⟨.ofInteger w hne hw hzero, current, ?_, ?_⟩
        . rw [DecimalLiteral.text_ofInteger]
          exact hinteger
        . rw [if_pos rfl, hinteger.since, parseInteger_eq hconv hne hw hzero, some_bind, applySign_eq hconv]
      | false =>
        rw [if_neg Bool.false_ne_true]
        rcases @readFraction_cases D current with ⟨fraction, middle, hfraction, hread⟩ | ⟨report, q, hread⟩
        . rw [hread]
          simp only [some_bind]
          rcases @readExponent_cases D middle with ⟨exponent, q, hexponent, hread⟩ | ⟨report, q, hread⟩
          . have hpast := hinteger.trans (hfraction.trans hexponent)
            refine .inl ⟨⟨w, fraction, exponent, hne, hw, hzero⟩, q, hpast, ?_⟩
            rw [hread]
            simp only [some_bind]
            rw [FullStringToDouble, hpast.since]
            have h := hconv.js_strtod_harder ⟨w, fraction, exponent, hne, hw, hzero⟩
            rw [DecimalLiteral.text] at h
            rw [h, applySign_eq hconv]
          . rw [hread]
            exact .inr ⟨report, q, rfl⟩
        . rw [hread]
          exact .inr ⟨report, q, rfl⟩

theorem readNumber_complete (hconv : conv.Correct nearest)
    (h : NumberText nearest w d) (hp : p.Past w q) (hq : Stop q.after)
    : readNumber conv p = some (.Number d, q) := by
  cases h with
  | positive ℓ =>
    obtain ⟨c, v, hcons⟩ := exists_cons_of_ne_nil ℓ.integer_ne
    have hc : 0x30 ≤ c.toNat ∧ c.toNat ≤ 0x39 := ℓ.integer_all c (by rw [hcons]; exact mem_cons_self)
    have hhead : p.after = c :: (v ++ (fractionText ℓ.fraction ++ exponentText ℓ.exponent) ++ q.after) := by
      rw [hp.after, DecimalLiteral.text, hcons]
      rfl
    have hminus : c ≠ unit '-' := by
      rintro rfl
      exact absurd hc.1 (by decide)
    rw [readNumber, deref_eq hhead]
    simp only [some_bind, hminus, if_false]
    exact readMagnitude_complete hconv hp hq
  | negative ℓ =>
    obtain ⟨next, hnext, hrest⟩ := hp.exists_cons
    have hne : ℓ.text ≠ [] := append_ne_nil_of_left_ne_nil ℓ.integer_ne _
    rw [readNumber, deref_eq hp.head, hnext.inc]
    simp only [some_bind, if_true, isEnd_eq_false_of_past hrest hne, Bool.false_eq_true, if_false]
    exact readMagnitude_complete hconv hrest hq

theorem readNumber_cases (hconv : conv.Correct nearest) (hp : p.after = c :: r)
    : (∃ w d q, NumberText nearest w d ∧ p.Past w q ∧ readNumber conv p = some (.Number d, q)) ∨
      ∃ report q, readNumber conv p = some (.Error report, q) := by
  obtain ⟨next, hnext, _⟩ := RangedPtr.Past.exists_of_after (w := [c]) hp
  rw [readNumber, deref_eq hp]
  simp only [some_bind]
  split
  . next hminus =>
    subst hminus
    rw [hnext.inc, some_bind]
    split
    . exact .inr ⟨_, _, rfl⟩
    next hend =>
    rw [Bool.not_eq_true] at hend
    refine (readMagnitude_cases hconv hend).imp ?_ id
    rintro ⟨ℓ, q, hpast, hrun⟩
    exact ⟨_, _, q, .negative ℓ, hnext.trans hpast, hrun⟩
  . refine (readMagnitude_cases hconv (isEnd_eq_false hp)).imp ?_ id
    rintro ⟨ℓ, q, hpast, hrun⟩
    exact ⟨_, _, q, .positive ℓ, hpast, hrun⟩

end SpiderMonkey.JSON
