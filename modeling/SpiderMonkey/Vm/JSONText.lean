import SpiderMonkey.Vm.Impl.JSONParser
import Mathlib.Algebra.Order.Field.Rat

/-!
This module contains the grammar of JSON text, with the value that each text denotes.
-/

namespace SpiderMonkey.JSON

def Whitespace (w : List CharT) : Prop := ∀ c ∈ w, c = '\t' ∨ c = '\n' ∨ c = '\r' ∨ c = ' '

inductive HexDigit (c : CharT) : Nat → Prop where
  | decimal {n : Nat} : n < 10 → c.toNat = 0x30 + n → HexDigit c n
  | upper {n : Nat} : n < 6 → c.toNat = 0x41 + n → HexDigit c (10 + n)
  | lower {n : Nat} : n < 6 → c.toNat = 0x61 + n → HexDigit c (10 + n)

inductive Escape : List CharT → CharT → Prop where
  | quote : Escape ['"'] 0x22
  | slash : Escape ['/'] 0x2F
  | backslash : Escape ['\\'] 0x5C
  | backspace : Escape ['b'] 0x08
  | formFeed : Escape ['f'] 0x0C
  | lineFeed : Escape ['n'] 0x0A
  | carriageReturn : Escape ['r'] 0x0D
  | tab : Escape ['t'] 0x09
  | unicode {c₃ c₂ c₁ c₀ : CharT} {n₃ n₂ n₁ n₀ : Nat}
    : HexDigit c₃ n₃ → HexDigit c₂ n₂ → HexDigit c₁ n₁ → HexDigit c₀ n₀
      → Escape ['u', c₃, c₂, c₁, c₀] (.ofNat 16 (n₃ * 16 ^ 3 + n₂ * 16 ^ 2 + n₁ * 16 + n₀))

inductive StringBody : List CharT → List CharT → Prop where
  | nil : StringBody [] []
  | unescaped {c : CharT} {w s : List CharT}
    : 0x20 ≤ c.toNat → c ≠ '"' → c ≠ '\\' → StringBody w s → StringBody (c :: w) (c :: s)
  | escape {e : List CharT} {c : CharT} {w s : List CharT}
    : Escape e c → StringBody w s → StringBody ('\\' :: (e ++ w)) (c :: s)

inductive StringText : List CharT → List CharT → Prop where
  | quoted {w s : List CharT} : StringBody w s → StringText ('"' :: (w ++ [unit '"'])) s

def Digits (w : List CharT) : Prop := ∀ c ∈ w, 0x30 ≤ c.toNat ∧ c.toNat ≤ 0x39

def decimal (w : List CharT) : Nat := w.foldl (fun n c => n * 10 + (c.toNat - 0x30)) 0

structure Fraction where
  digits : List CharT
  digits_ne : digits ≠ []
  digits_all : Digits digits

structure Exponent where
  letter : CharT
  sign : Option CharT
  digits : List CharT
  letter_eq : letter = 'e' ∨ letter = 'E'
  sign_eq : ∀ c ∈ sign, c = '+' ∨ c = '-'
  digits_ne : digits ≠ []
  digits_all : Digits digits

def Exponent.text (e : Exponent) : List CharT := e.letter :: (e.sign.toList ++ e.digits)

def Exponent.value (e : Exponent) : Int := if e.sign = some (unit '-') then -(decimal e.digits) else decimal e.digits

def fractionText : Option Fraction → List CharT
  | some f => '.' :: f.digits
  | none => []

def fractionDigits : Option Fraction → List CharT
  | some f => f.digits
  | none => []

def exponentText : Option Exponent → List CharT
  | some e => e.text
  | none => []

def exponentValue : Option Exponent → Int
  | some e => e.value
  | none => 0

-- A number without its sign. No leading zero stands before another digit.
structure DecimalLiteral where
  integer : List CharT
  fraction : Option Fraction
  exponent : Option Exponent
  integer_ne : integer ≠ []
  integer_all : Digits integer
  integer_zero : integer.head? = some (unit '0') → integer = [unit '0']

namespace DecimalLiteral

def text (ℓ : DecimalLiteral) : List CharT := ℓ.integer ++ (fractionText ℓ.fraction ++ exponentText ℓ.exponent)

def value (ℓ : DecimalLiteral) : Rat :=
  let fraction := fractionDigits ℓ.fraction
  decimal (ℓ.integer ++ fraction) * (10 : Rat) ^ (exponentValue ℓ.exponent - fraction.length)

end DecimalLiteral

abbrev Nearest (D : Type) := Bool → Rat → D

-- What the conversions of decimal literals are documented to compute.
structure Conversions.Correct {D : Type} (conv : Conversions D) (nearest : Nearest D) : Prop where
  static_cast : ∀ n, n < DOUBLE_INTEGRAL_PRECISION_LIMIT → conv.static_cast n = nearest false n
  js_strtod_harder : ∀ ℓ : DecimalLiteral, conv.js_strtod_harder ℓ.text = nearest false ℓ.value
  neg : ∀ q, conv.neg (nearest false q) = nearest true q

inductive NumberText {D : Type} (nearest : Nearest D) : List CharT → D → Prop where
  | positive (ℓ : DecimalLiteral) : NumberText nearest ℓ.text (nearest false ℓ.value)
  | negative (ℓ : DecimalLiteral) : NumberText nearest ('-' :: ℓ.text) (nearest true ℓ.value)

mutual

inductive ValueText {D : Type} (nearest : Nearest D) : List CharT → Value D → Prop where
  | null : ValueText nearest ['n', 'u', 'l', 'l'] .Null
  | true : ValueText nearest ['t', 'r', 'u', 'e'] (.Boolean true)
  | false : ValueText nearest ['f', 'a', 'l', 's', 'e'] (.Boolean false)
  | number {w : List CharT} {d : D} : NumberText nearest w d → ValueText nearest w (.Number d)
  | string {w s : List CharT} : StringText w s → ValueText nearest w (.String s)
  | emptyArray {a : List CharT} : Whitespace a → ValueText nearest ('[' :: (a ++ [unit ']'])) (.Array [])
  | array {w : List CharT} {vs : List (Value D)}
    : ElementsText nearest w vs → ValueText nearest ('[' :: (w ++ [unit ']'])) (.Array vs)
  | emptyObject {a : List CharT} : Whitespace a → ValueText nearest ('\x7b' :: (a ++ [unit '\x7d'])) (.Object [])
  | object {w : List CharT} {ms : List (List CharT × Value D)}
    : MembersText nearest w ms → ValueText nearest ('\x7b' :: (w ++ [unit '\x7d'])) (.Object ms)

inductive ElementsText {D : Type} (nearest : Nearest D) : List CharT → List (Value D) → Prop where
  | last {a w b : List CharT} {v : Value D}
    : Whitespace a → ValueText nearest w v → Whitespace b → ElementsText nearest (a ++ (w ++ b)) [v]
  | cons {a w b rest : List CharT} {v : Value D} {vs : List (Value D)}
    : Whitespace a → ValueText nearest w v → Whitespace b → ElementsText nearest rest vs
      → ElementsText nearest (a ++ (w ++ (b ++ unit ',' :: rest))) (v :: vs)

-- The members stand in source order, and a key may stand more than once.
inductive MembersText {D : Type} (nearest : Nearest D) : List CharT → List (List CharT × Value D) → Prop where
  | last {a k b c w d key : List CharT} {v : Value D}
    : Whitespace a → StringText k key → Whitespace b → Whitespace c → ValueText nearest w v → Whitespace d
      → MembersText nearest (a ++ (k ++ (b ++ unit ':' :: (c ++ (w ++ d))))) [(key, v)]
  | cons {a k b c w d key rest : List CharT} {v : Value D} {ms : List (List CharT × Value D)}
    : Whitespace a → StringText k key → Whitespace b → Whitespace c → ValueText nearest w v → Whitespace d
      → MembersText nearest rest ms
      → MembersText nearest (a ++ (k ++ (b ++ unit ':' :: (c ++ (w ++ (d ++ unit ',' :: rest))))))
        ((key, v) :: ms)

end

inductive JSONText {D : Type} (nearest : Nearest D) : List CharT → Value D → Prop where
  | value {a w b : List CharT} {v : Value D}
    : Whitespace a → ValueText nearest w v → Whitespace b → JSONText nearest (a ++ (w ++ b)) v

end SpiderMonkey.JSON
