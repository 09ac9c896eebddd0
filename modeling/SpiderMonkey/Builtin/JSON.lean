import SpiderMonkey.Builtin.Lemmas.JSON

/-!
This module contains the correctness of the parser for JSON text and of the quoting of strings.
-/

namespace SpiderMonkey.JSON

open List

variable {D : Type} {conv : Conversions D} {nearest : Nearest D}

def rationalStrtod (text : List CharT) : Bool × Rat :=
  let integer := text.takeWhile IsAsciiDigit
  let rest := text.dropWhile IsAsciiDigit
  let isFraction := rest.head? = some (unit '.')
  let fraction := if isFraction then rest.tail.takeWhile IsAsciiDigit else []
  let rest := if isFraction then rest.tail.dropWhile IsAsciiDigit else rest
  let exponent := rest.tail
  let value : Int :=
    if exponent.head? = some (unit '-') then -(decimal exponent.tail)
    else if exponent.head? = some (unit '+') then decimal exponent.tail
    else decimal exponent
  (false, decimal (integer ++ fraction) * (10 : Rat) ^ (value - fraction.length))

def rationalConversions : Conversions (Bool × Rat) where
  static_cast n := (false, n)
  js_strtod_harder := rationalStrtod
  neg d := (!d.1, d.2)

theorem span_digits (hw : Digits w) (hr : NoDigit r)
    : (w ++ r).takeWhile IsAsciiDigit = w ∧ (w ++ r).dropWhile IsAsciiDigit = r := by
  have hall : ∀ c ∈ w, IsAsciiDigit c = true := fun c hc => isAsciiDigit_iff.mpr (hw c hc)
  have hstop : r.takeWhile IsAsciiDigit = [] ∧ r.dropWhile IsAsciiDigit = r := by
    cases r with
    | nil => exact ⟨rfl, rfl⟩
    | cons c r =>
      have hc := hr c rfl
      rw [takeWhile_cons_of_neg (by rw [hc]; exact Bool.false_ne_true),
        dropWhile_cons_of_neg (by rw [hc]; exact Bool.false_ne_true)]
      exact ⟨rfl, rfl⟩
  rw [takeWhile_append_of_pos hall, dropWhile_append_of_pos hall, hstop.1, hstop.2, append_nil]
  exact ⟨rfl, rfl⟩

theorem noDigit_exponentText (exponent : Option Exponent) : NoDigit (exponentText exponent) := by
  cases exponent with
  | none => rintro c ⟨⟩
  | some e => exact noDigit_of_letter (.inr e.letter_eq)

theorem exponentValue_eq (exponent : Option Exponent)
    : (if (exponentText exponent).tail.head? = some (unit '-') then -(decimal (exponentText exponent).tail.tail : Int)
        else if (exponentText exponent).tail.head? = some (unit '+') then decimal (exponentText exponent).tail.tail
        else decimal (exponentText exponent).tail) = exponentValue exponent := by
  cases exponent with
  | none => rfl
  | some e =>
    obtain ⟨letter, sign, digits, _, hsign, hne, hdigits⟩ := e
    cases sign with
    | some c =>
      rcases hsign c rfl with rfl | rfl
      . rfl
      . rfl
    | none =>
      obtain ⟨c, w, rfl⟩ := exists_cons_of_ne_nil hne
      have hc := hdigits c mem_cons_self
      have hminus : c ≠ unit '-' := by
        rintro rfl
        exact absurd hc.1 (by decide)
      have hplus : c ≠ unit '+' := by
        rintro rfl
        exact absurd hc.1 (by decide)
      simp only [exponentText, Exponent.text, Option.toList_none, nil_append, tail_cons, List.head?_cons,
        Option.some.injEq, hminus, hplus, if_false, exponentValue, Exponent.value, reduceCtorEq]

theorem rationalStrtod_eq (ℓ : DecimalLiteral) : rationalStrtod ℓ.text = (false, ℓ.value) := by
  have hexp := noDigit_exponentText ℓ.exponent
  have hvalue := exponentValue_eq ℓ.exponent
  have hrest : NoDigit (fractionText ℓ.fraction ++ exponentText ℓ.exponent) := by
    rcases ℓ.rest_cases with ⟨hnil, _, _⟩ | ⟨c, r, hr, hc⟩
    . rw [hnil]
      rintro c ⟨⟩
    . rw [hr]
      exact noDigit_of_letter hc
  obtain ⟨htake, hdrop⟩ := span_digits ℓ.integer_all hrest
  rw [rationalStrtod, DecimalLiteral.text]
  rw [htake, hdrop, DecimalLiteral.value]
  cases hf : ℓ.fraction with
  | some f =>
    obtain ⟨htake', hdrop'⟩ := span_digits f.digits_all hexp
    simp only [fractionText, cons_append, List.head?_cons, if_true, tail_cons, htake', hdrop', hvalue, fractionDigits]
  | none =>
    have hdot : ¬(exponentText ℓ.exponent).head? = some (unit '.') := by
      cases hexp : ℓ.exponent with
      | none => rintro ⟨⟩
      | some e =>
        rw [exponentText, Exponent.text, List.head?_cons, Option.some.injEq]
        rcases e.letter_eq with h | h <;> (rw [h]; decide)
    simp only [fractionText, nil_append, hdot, if_false, hvalue, fractionDigits]

theorem rationalConversions_correct : rationalConversions.Correct (fun negative q => (negative, q)) where
  static_cast _ _ := rfl
  js_strtod_harder := rationalStrtod_eq
  neg _ := rfl

end SpiderMonkey.JSON
