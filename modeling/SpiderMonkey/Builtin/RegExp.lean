import SpiderMonkey.Builtin.GetSubstitution
import SpiderMonkey.Builtin.Lemmas.JSON
import SpiderMonkey.Lib.Ensures

/-!
This module contains that replacement templates are expanded as the specification says: each of their scans takes the
dollars for the same symbols.
-/

open List

namespace SpiderMonkey.RegExp

open JSON

theorem js_strchr_limit_cases (c : CharT) (s : List CharT)
    : js_strchr_limit c s = none ∧ c ∉ s
      ∨ ∃ lit rest, js_strchr_limit c s = some (c :: rest) ∧ s = lit ++ c :: rest ∧ c ∉ lit := by
  induction s with
  | nil => exact .inl ⟨rfl, not_mem_nil⟩
  | cons x s ih =>
    unfold js_strchr_limit
    by_cases hx : x = c
    . subst hx
      rw [if_pos rfl]
      exact .inr ⟨[], s, rfl, rfl, not_mem_nil⟩
    rw [if_neg hx]
    rcases ih with ⟨hnone, hmem⟩ | ⟨lit, rest, hsome, rfl, hmem⟩
    . exact .inl ⟨hnone, not_mem_cons_of_ne_of_not_mem (Ne.symm hx) hmem⟩
    . exact .inr ⟨x :: lit, rest, hsome, rfl, not_mem_cons_of_ne_of_not_mem (Ne.symm hx) hmem⟩

section Symbols

variable {extended hasGroups : Bool} {m n : Nat} {symbol : Symbol} {lit rest : List CharT}

theorem symbols_skip (k : Nat) (template : List CharT)
    : symbols extended m hasGroups k template = symbols extended m hasGroups 0 (template.drop k) := by
  induction k generalizing template with
  | zero => rfl
  | succ k ih =>
    cases template with
    | nil => rfl
    | cons c rest => exact ih rest

theorem symbols_append (h : unit '$' ∉ lit)
    : symbols extended m hasGroups 0 (lit ++ rest) = lit.map .unit ++ symbols extended m hasGroups 0 rest := by
  induction lit with
  | nil => rfl
  | cons c lit ih =>
    have hne := Ne.symm (ne_of_not_mem_cons h)
    rw [cons_append, symbols, if_neg hne, ih (not_mem_of_not_mem_cons h)]
    rfl

theorem symbols_of_not_mem (h : unit '$' ∉ lit) : symbols extended m hasGroups 0 lit = lit.map .unit := by
  have happend : symbols extended m hasGroups 0 (lit ++ []) = lit.map .unit ++ _ := symbols_append h
  rw [append_nil] at happend
  exact happend.trans (append_nil _)

theorem symbols_of_some (h : symbolOf extended m hasGroups rest = some (symbol, n))
    : symbols extended m hasGroups 0 (unit '$' :: rest) = symbol :: symbols extended m hasGroups 0 (rest.drop n) := by
  rw [symbols, if_pos rfl, h, ← symbols_skip]

theorem symbols_of_none (h : symbolOf extended m hasGroups rest = none)
    : symbols extended m hasGroups 0 (unit '$' :: rest) = .unit '$' :: symbols extended m hasGroups 0 rest := by
  rw [symbols, if_pos rfl, h]

theorem captureSymbol_takes (h : captureSymbol m c rest = some (symbol, n))
    : (n = 1 ∨ n = 2 ∧ ∃ c' tail, rest = c' :: tail ∧ IsAsciiDigit c' = true) ∧ symbol.name? = none := by
  unfold captureSymbol at h
  cases rest with
  | nil =>
    dsimp only at h
    split at h
    next =>
      cases h
      exact ⟨.inl rfl, rfl⟩
    next => cases h
  | cons c' tail =>
    dsimp only at h
    split at h
    next k htwo =>
      split at htwo
      next hdigit =>
        split at h
        next =>
          cases h
          exact ⟨.inr ⟨rfl, c', tail, rfl, hdigit.1⟩, rfl⟩
        next => cases h
      next => cases htwo
    next =>
      split at h
      next =>
        cases h
        exact ⟨.inl rfl, rfl⟩
      next => cases h

theorem takeWhile_append_of_mem (h : c ∈ rest)
    : ∃ tail, js_strchr_limit c rest = some (c :: tail) ∧ rest = rest.takeWhile (· ≠ c) ++ c :: tail := by
  rcases js_strchr_limit_cases c rest with ⟨_, hnot⟩ | ⟨lit, tail, hsome, rfl, hmem⟩
  . exact absurd h hnot
  refine ⟨tail, hsome, ?_⟩
  have hne : ∀ x ∈ lit, decide (x ≠ c) = true := fun x hx => decide_eq_true fun heq => hmem (heq ▸ hx)
  rw [takeWhile_append_of_pos hne, takeWhile_cons, if_neg (by simp), append_nil]

theorem symbolOf_le (h : symbolOf extended m hasGroups rest = some (symbol, n)) : n ≤ rest.length := by
  cases rest with
  | nil => cases h
  | cons c rest =>
    dsimp only [symbolOf] at h
    rw [length_cons]
    split at h
    next =>
      rcases (captureSymbol_takes h).1 with rfl | ⟨rfl, c', tail, rfl, _⟩
      . exact Nat.le_add_left _ _
      . exact Nat.le_add_left _ _
    next =>
      split at h
      next =>
        split at h
        next hnamed =>
          cases h
          obtain ⟨tail, _, heq⟩ := takeWhile_append_of_mem hnamed.2
          have hlength := congrArg List.length heq
          rw [length_append, length_cons] at hlength
          omega
        next => cases h
      next =>
        split_ifs at h
        all_goals
          cases h
          exact Nat.le_add_left _ _

end Symbols

namespace Substitution

variable {s : Substitution} {symbol : Symbol} {n : Nat} {rest : List CharT}

def symbolsOf (s : Substitution) (template : List CharT) : List Symbol :=
  symbols true s.captures.length (!s.namedCaptures.isEmpty) 0 template

structure WellFormed (s : Substitution) : Prop where
  position_le : s.position ≤ s.string.length
  tailPos_eq : s.tailPos = s.position + s.matched.length
  length_le : s.string.length ≤ MaxStringLength
  replacement_le : s.replacement.length ≤ MaxStringLength

structure Gives (s : Substitution) (sub : JSSubString) (text : List CharT) : Prop where
  inBounds : sub.offset + sub.length ≤ sub.base.length
  text_eq : (sub.base.units.drop sub.offset).take sub.length = text
  twoBytes : sub.base.hasTwoByteChars = true → s.NeedTwoBytes = true

theorem needTwoBytes_of_string (h : s.string.hasTwoByteChars = true) : s.NeedTwoBytes = true := by
  simp [NeedTwoBytes, h]

theorem needTwoBytes_of_replacement (h : s.replacement.hasTwoByteChars = true) : s.NeedTwoBytes = true := by
  simp [NeedTwoBytes, h]

theorem needTwoBytes_of_matched (h : s.matched.hasTwoByteChars = true) : s.NeedTwoBytes = true := by
  simp [NeedTwoBytes, h]

theorem needTwoBytes_of_capture {capture : JSLinearString}
    (hmem : some capture ∈ s.captures ∨ some capture ∈ s.namedCaptures) (h : capture.hasTwoByteChars = true)
    : s.NeedTwoBytes = true := by
  unfold NeedTwoBytes
  simp only [Bool.or_eq_true, any_eq_true]
  rcases hmem with hmem | hmem
  . exact .inl (.inr ⟨_, hmem, h⟩)
  . exact .inr ⟨_, hmem, h⟩

theorem gives_whole {base : JSLinearString} (h : base.hasTwoByteChars = true → s.NeedTwoBytes = true)
    : s.Gives ⟨base, 0, base.length⟩ base.units where
  inBounds := Nat.le_of_eq (Nat.zero_add _)
  text_eq := by
    rw [drop_zero, ← base.length_units, take_length]
  twoBytes := h

theorem gives_nothing : s.Gives ⟨s.matched, 0, 0⟩ [] where
  inBounds := Nat.zero_le _
  text_eq := take_zero
  twoBytes := needTwoBytes_of_matched

theorem gives_paren {capture : Option JSLinearString} (hmem : capture ∈ s.captures ∨ capture ∈ s.namedCaptures)
    : s.Gives (GetParen s.matched capture) (captureText capture) := by
  cases capture with
  | none => exact gives_nothing
  | some capture => exact gives_whole (needTwoBytes_of_capture hmem)

def Interprets (s : Substitution) (currentDollar : List CharT) (currentNamedCapture : Nat) (symbol : Symbol) (n : Nat)
    : Prop :=
  ∃ sub next, s.InterpretDollar currentDollar currentNamedCapture = some (some (sub, n + 1, next))
    ∧ s.namedCaptures.drop next = symbol.remaining (s.namedCaptures.drop currentNamedCapture)
    ∧ next = currentNamedCapture + (names [symbol]).length
    ∧ s.Gives sub (s.textWith (s.namedCaptures.drop currentNamedCapture) symbol)

theorem interprets_capture (hpos : 1 ≤ k) (hk : k ≤ s.captures.length) (hrun : s.InterpretDollar currentDollar cnc
      = s.captures[k - 1]?.bind fun capture => some (some (GetParen s.matched capture, n + 1, cnc)))
    : s.Interprets currentDollar cnc (.capture k) n := by
  have hget : s.captures[k - 1]? = some (s.captures.get ⟨k - 1, by omega⟩) := List.getElem?_eq_getElem _
  rw [hget, Option.bind_some] at hrun
  refine ⟨_, _, hrun, rfl, rfl, ?_⟩
  show s.Gives _ (captureText s.captures[k - 1]?.join)
  rw [hget]
  exact gives_paren (.inl (get_mem _ _))

def Agrees (s : Substitution) (currentDollar : List CharT) (cnc : Nat) (o : Option (Symbol × Nat)) : Prop :=
  match o with
  | none => s.InterpretDollar currentDollar cnc = some none
  | some (symbol, n) => s.Interprets currentDollar cnc symbol n

theorem agrees_number (hrun : s.InterpretDollar currentDollar cnc
      = if num > s.captures.length then some none else if num = 0 then some none
        else s.captures[num - 1]?.bind fun capture => some (some (GetParen s.matched capture, n + 1, cnc)))
    : s.Agrees currentDollar cnc (if 1 ≤ num ∧ num ≤ s.captures.length then some (.capture num, n) else none) := by
  by_cases h : 1 ≤ num ∧ num ≤ s.captures.length
  . rw [if_neg (by omega), if_neg (by omega)] at hrun
    rw [if_pos h]
    exact interprets_capture h.1 h.2 hrun
  rw [if_neg h]
  by_cases hgt : num > s.captures.length
  . rw [if_pos hgt] at hrun
    exact hrun
  . rw [if_neg hgt, if_pos (by omega)] at hrun
    exact hrun

theorem InterpretDollar_digit (hdigit : IsAsciiDigit c = true) (cnc : Nat)
    : s.Agrees (unit '$' :: c :: rest) cnc (captureSymbol s.captures.length c rest) := by
  have hrun : s.InterpretDollar (unit '$' :: c :: rest) cnc = _ := if_pos hdigit
  unfold captureSymbol
  generalize AsciiDigitToNumber c = one at hrun ⊢
  cases rest with
  | nil => exact agrees_number hrun
  | cons c' rest =>
    dsimp only at hrun ⊢
    by_cases htwo : IsAsciiDigit c' = true ∧ 10 * one + AsciiDigitToNumber c' ≤ s.captures.length
    . rw [if_pos htwo.1, if_pos htwo.2] at hrun
      have hone : ¬one > s.captures.length := by
        omega
      have hle : ¬10 * one + AsciiDigitToNumber c' > s.captures.length := Nat.not_lt.mpr htwo.2
      rw [if_pos htwo]
      dsimp only
      generalize 10 * one + AsciiDigitToNumber c' = two at hle hrun
      have hsymbol : (if 1 ≤ two then some (Symbol.capture two, 2) else none)
          = if 1 ≤ two ∧ two ≤ s.captures.length then some (Symbol.capture two, 2) else none :=
        if_congr (by omega) rfl rfl
      rw [hsymbol]
      apply agrees_number
      rw [if_neg hle]
      rw [if_neg hone] at hrun
      exact hrun
    . rw [if_neg htwo]
      have hone : (if IsAsciiDigit c' = true then
          if 10 * one + AsciiDigitToNumber c' ≤ s.captures.length then (10 * one + AsciiDigitToNumber c', 3) else (one, 2)
          else (one, 2)) = (one, 2) := by
        split_ifs with hdigit' hle
        . exact absurd ⟨hdigit', hle⟩ htwo
        . rfl
        . rfl
      rw [hone] at hrun
      exact agrees_number hrun

theorem gives_dollar (hsuffix : unit '$' :: currentDollar <:+ s.replacement.units)
    : s.Gives ⟨s.replacement, s.replacement.units.length - (unit '$' :: currentDollar).length, 1⟩ [unit '$'] := by
  obtain ⟨before, hbefore⟩ := hsuffix
  have hlength := congrArg List.length hbefore
  rw [length_append] at hlength
  have hoffset : s.replacement.units.length - (unit '$' :: currentDollar).length = before.length := by omega
  rw [hoffset]
  refine ⟨?_, ?_, needTwoBytes_of_replacement⟩
  . dsimp only
    rw [← s.replacement.length_units, ← hlength, length_cons]
    omega
  dsimp only
  rw [← hbefore, drop_left]
  rfl

theorem gives_last : s.Gives (GetParen s.matched s.captures.getLast?.join) (captureText s.captures.getLast?.join) := by
  rcases hlast : s.captures.getLast? with _ | capture
  . exact gives_nothing
  . exact gives_paren (.inl (mem_of_getLast? hlast))

theorem gives_before (hwf : s.WellFormed) : s.Gives ⟨s.string, 0, s.position⟩ (s.string.units.take s.position) where
  inBounds := by
    rw [Nat.zero_add]
    exact hwf.position_le
  text_eq := rfl
  twoBytes := needTwoBytes_of_string

theorem gives_after (hwf : s.WellFormed) (h : s.tailPos ≤ s.string.length)
    : s.Gives ⟨s.string, s.tailPos, (2 ^ 64 + s.string.length - s.tailPos) % 2 ^ 64⟩
        (s.string.units.drop (s.position + s.matched.length)) := by
  have hle := hwf.length_le
  have hlength : (2 ^ 64 + s.string.length - s.tailPos) % 2 ^ 64 = s.string.length - s.tailPos := by
    unfold MaxStringLength at hle
    omega
  rw [hlength]
  refine ⟨?_, ?_, needTwoBytes_of_string⟩
  . dsimp only
    omega
  . dsimp only
    rw [← s.string.length_units, ← length_drop, take_length, hwf.tailPos_eq]

theorem InterpretDollar_name
    (hnamed : (!s.namedCaptures.isEmpty) = true → unit '>' ∈ rest → cnc < s.namedCaptures.length)
    : s.Agrees (unit '$' :: unit '<' :: rest) cnc (if (!s.namedCaptures.isEmpty) = true ∧ unit '>' ∈ rest then
          some (.named (rest.takeWhile (· ≠ unit '>')), (rest.takeWhile (· ≠ unit '>')).length + 2) else none) := by
  have hrun : s.InterpretDollar (unit '$' :: unit '<' :: rest) cnc = if s.namedCaptures.length = 0 then some none else
          (js_strchr_limit '>' rest).elim (some none) fun nameEnd => s.namedCaptures[cnc]?.bind fun capture =>
            some (some (GetParen s.matched capture, rest.length - nameEnd.length + 3, cnc + 1)) := by
    unfold InterpretDollar
    dsimp only
    cases js_strchr_limit '>' rest <;> rfl
  have hempty : s.namedCaptures.length = 0 ↔ ¬(!s.namedCaptures.isEmpty) = true := by simp
  by_cases h : (!s.namedCaptures.isEmpty) = true ∧ unit '>' ∈ rest
  . have hlt := hnamed h.1 h.2
    obtain ⟨tail, hstr, heq⟩ := takeWhile_append_of_mem h.2
    have hlength := congrArg List.length heq
    rw [length_append] at hlength
    have hget : s.namedCaptures[cnc]? = some (s.namedCaptures.get ⟨cnc, hlt⟩) := List.getElem?_eq_getElem hlt
    rw [if_neg (mt hempty.mp (not_not.mpr h.1)), hstr, Option.elim_some] at hrun
    rw [hget, Option.bind_some, show rest.length - (unit '>' :: tail).length
      = (rest.takeWhile (· ≠ unit '>')).length by omega] at hrun
    rw [if_pos h]
    refine ⟨_, _, hrun, ?_, rfl, ?_⟩
    . exact tail_drop.symm
    show s.Gives _ (captureText (s.namedCaptures.drop cnc).head?.join)
    rw [List.head?_drop, hget]
    exact gives_paren (.inr (get_mem _ _))
  . rw [if_neg h]
    show s.InterpretDollar _ _ = some none
    rw [hrun]
    split
    next => rfl
    next hne =>
      rcases js_strchr_limit_cases '>' rest with ⟨hnone, _⟩ | ⟨lit, tail, _, rfl, _⟩
      . rw [hnone, Option.elim_none]
      . exact absurd ⟨not_not.mp (mt hempty.mpr hne), mem_append_right _ mem_cons_self⟩ h

theorem InterpretDollar_symbol (hwf : s.WellFormed) (hsuffix : unit '$' :: c :: rest <:+ s.replacement.units)
    (hafter : symbolOf true s.captures.length (!s.namedCaptures.isEmpty) (c :: rest) = some (.after, 1) →
      s.tailPos ≤ s.string.length)
    (hnamed : ∀ name n, symbolOf true s.captures.length (!s.namedCaptures.isEmpty) (c :: rest) = some (.named name, n) →
      cnc < s.namedCaptures.length)
    : s.Agrees (unit '$' :: c :: rest) cnc
      (symbolOf true s.captures.length (!s.namedCaptures.isEmpty) (c :: rest)) := by
  by_cases hdigit : IsAsciiDigit c = true
  . have hsymbol : symbolOf true s.captures.length (!s.namedCaptures.isEmpty) (c :: rest)
        = captureSymbol s.captures.length c rest := if_pos hdigit
    rw [hsymbol]
    exact InterpretDollar_digit hdigit cnc
  dsimp only [symbolOf] at hafter hnamed ⊢
  rw [if_neg hdigit] at hafter hnamed ⊢
  by_cases hless : c = '<'
  . subst hless
    rw [if_pos rfl] at hnamed ⊢
    exact InterpretDollar_name fun hgroups hmem => hnamed _ _ (if_pos ⟨hgroups, hmem⟩)
  rw [if_neg hless] at hafter ⊢
  have hrun (o : Option (Option (JSSubString × Nat × Nat))) (ho : (let currentDollar := unit '$' :: c :: rest
      let substitute (sub : JSSubString) := some (some (sub, 2, cnc))
      if c = '$' then substitute ⟨s.replacement, s.replacement.units.length - currentDollar.length, 1⟩
      else if c = '&' then substitute ⟨s.matched, 0, s.matched.length⟩
      else if c = '+' then
        if s.captures.length = 0 then substitute ⟨s.matched, 0, 0⟩
        else s.captures[s.captures.length - 1]?.bind fun capture => substitute (GetParen s.matched capture)
      else if c = '`' then substitute ⟨s.string, 0, s.position⟩
      else if c = '\'' then substitute ⟨s.string, s.tailPos, (2 ^ 64 + s.string.length - s.tailPos) % 2 ^ 64⟩
      else some none) = o) : s.InterpretDollar (unit '$' :: c :: rest) cnc = o := by
    rw [← ho]
    unfold InterpretDollar
    dsimp only
    rw [if_neg hdigit, if_neg hless]
    rfl
  by_cases hdollar : c = '$'
  . rw [if_pos hdollar] at hrun ⊢
    exact ⟨_, _, hrun _ rfl, rfl, rfl, gives_dollar hsuffix⟩
  rw [if_neg hdollar] at hafter hrun ⊢
  by_cases hmatched : c = '&'
  . rw [if_pos hmatched] at hrun ⊢
    exact ⟨_, _, hrun _ rfl, rfl, rfl, gives_whole needTwoBytes_of_matched⟩
  rw [if_neg hmatched] at hafter hrun ⊢
  by_cases hlast : c = '+'
  . rw [if_pos hlast] at hrun
    rw [if_pos ⟨hlast, rfl⟩]
    refine ⟨GetParen s.matched s.captures.getLast?.join, _, hrun _ ?_, rfl, rfl, gives_last⟩
    rw [List.getLast?_eq_getElem?]
    split
    next hempty => rw [eq_nil_of_length_eq_zero hempty]; rfl
    next hne =>
      have hget : s.captures[s.captures.length - 1]? = some (s.captures.get ⟨s.captures.length - 1, by omega⟩) :=
        List.getElem?_eq_getElem _
      rw [hget]
      rfl
  rw [if_neg hlast] at hrun
  rw [if_neg (fun h => hlast h.1)] at hafter ⊢
  by_cases hbefore : c = '`'
  . rw [if_pos hbefore] at hrun ⊢
    exact ⟨_, _, hrun _ rfl, rfl, rfl, gives_before hwf⟩
  rw [if_neg hbefore] at hafter hrun ⊢
  by_cases hquote : c = '\''
  . rw [if_pos hquote] at hafter hrun ⊢
    exact ⟨_, _, hrun _ rfl, rfl, rfl, gives_after hwf (hafter rfl)⟩
  . rw [if_neg hquote] at hrun ⊢
    exact hrun _ rfl

structure Available (s : Substitution) (cnc : Nat) (template : List CharT) : Prop where
  names_le : cnc + (names (s.symbolsOf template)).length ≤ s.namedCaptures.length
  after : .after ∈ s.symbolsOf template → s.tailPos ≤ s.string.length

def expand (s : Substitution) (cnc : Nat) (template : List CharT) : List CharT :=
  s.expandWith (s.symbolsOf template) (s.namedCaptures.drop cnc)

variable {cnc : Nat} {lit template : List CharT}

theorem names_append (as bs : List Symbol) : names (as ++ bs) = names as ++ names bs := filterMap_append

theorem names_units (lit : List CharT) : names (lit.map .unit) = [] := by
  induction lit with
  | nil => rfl
  | cons c lit ih => exact ih

theorem expandWith_units (as : List Symbol) (vals : CapturesVector)
    : s.expandWith (lit.map .unit ++ as) vals = lit ++ s.expandWith as vals := by
  induction lit with
  | nil => rfl
  | cons c lit ih => exact congrArg (c :: ·) ih

theorem symbolsOf_append (h : unit '$' ∉ lit)
    : s.symbolsOf (lit ++ template) = lit.map .unit ++ s.symbolsOf template :=
  symbols_append h

theorem expand_append (h : unit '$' ∉ lit) : s.expand cnc (lit ++ template) = lit ++ s.expand cnc template := by
  unfold expand
  rw [symbolsOf_append h, expandWith_units]

theorem Available.of_append (h : unit '$' ∉ lit) (ha : s.Available cnc (lit ++ template))
    : s.Available cnc template where
  names_le := by
    have hle := ha.names_le
    rw [symbolsOf_append h, names_append, names_units] at hle
    exact hle
  after := by
    intro hmem
    apply ha.after
    rw [symbolsOf_append h]
    exact mem_append_right _ hmem

section None

variable (h : symbolOf true s.captures.length (!s.namedCaptures.isEmpty) rest = none)
include h

theorem expand_of_none : s.expand cnc (unit '$' :: rest) = unit '$' :: s.expand cnc rest := by
  unfold expand symbolsOf
  rw [symbols_of_none h]
  rfl

theorem Available.of_none (ha : s.Available cnc (unit '$' :: rest)) : s.Available cnc rest where
  names_le := by
    have hle := ha.names_le
    unfold symbolsOf at hle
    rw [symbols_of_none h] at hle
    exact hle
  after := by
    intro hmem
    apply ha.after
    unfold symbolsOf
    rw [symbols_of_none h]
    exact mem_cons_of_mem _ hmem

end None

section Some

variable (h : symbolOf true s.captures.length (!s.namedCaptures.isEmpty) rest = some (symbol, n))
include h

theorem expand_of_some {next : Nat} (hnext : s.namedCaptures.drop next = symbol.remaining (s.namedCaptures.drop cnc))
    : s.expand cnc (unit '$' :: rest)
      = s.textWith (s.namedCaptures.drop cnc) symbol ++ s.expand next (rest.drop n) := by
  unfold expand symbolsOf
  rw [symbols_of_some h, hnext]
  rfl

theorem Available.of_some (ha : s.Available cnc (unit '$' :: rest))
    : s.Available (cnc + (names [symbol]).length) (rest.drop n) where
  names_le := by
    have hle := ha.names_le
    unfold symbolsOf at hle
    rw [symbols_of_some h, ← singleton_append, names_append, length_append] at hle
    unfold symbolsOf
    omega
  after := by
    intro hmem
    apply ha.after
    unfold symbolsOf
    rw [symbols_of_some h]
    exact mem_cons_of_mem _ hmem

end Some

theorem InterpretDollar_agrees (hwf : s.WellFormed) (hsuffix : unit '$' :: rest <:+ s.replacement.units)
    (ha : s.Available cnc (unit '$' :: rest))
    : s.Agrees (unit '$' :: rest) cnc (symbolOf true s.captures.length (!s.namedCaptures.isEmpty) rest) := by
  cases rest with
  | nil => rfl
  | cons c rest =>
    apply InterpretDollar_symbol hwf hsuffix
    . intro hsymbol
      apply ha.after
      unfold symbolsOf
      rw [symbols_of_some hsymbol]
      exact mem_cons_self
    . intro name n hsymbol
      have hle := (ha.of_some hsymbol).names_le
      have : (names [Symbol.named name]).length = 1 := rfl
      omega

end Substitution

namespace JSStringBuilder

def append (sb : JSStringBuilder) (chars : List CharT) : JSStringBuilder :=
  { sb with buffer := { sb.buffer with chars := sb.buffer.chars ++ chars } }

theorem append_append (sb : JSStringBuilder) (as bs : List CharT)
    : (sb.append as).append bs = sb.append (as ++ bs) := by
  unfold append
  rw [append_assoc]

-- The buffer is as the substitution needs it, and so many units are still reserved.
structure Holds (s : Substitution) (sb : JSStringBuilder) (n : Nat) : Prop where
  twoBytes : sb.buffer.isUnderlyingBufferLatin1 = !s.NeedTwoBytes
  room : sb.buffer.chars.length + n ≤ sb.reserved

variable {s : Substitution} {sb : JSStringBuilder} {n : Nat} {chars : List CharT}

theorem infallibleAppend_eq {isLatin1 : Bool} (h : sb.Holds s (chars.length + n))
    (hchars : isLatin1 = false → s.NeedTwoBytes = true)
    : sb.infallibleAppend isLatin1 chars = some (sb.append chars) ∧ (sb.append chars).Holds s n := by
  have hroom := h.room
  constructor
  . unfold infallibleAppend
    rw [if_neg, if_neg (by omega)]
    . rfl
    rw [h.twoBytes]
    cases isLatin1 with
    | true => exact Bool.false_ne_true
    | false =>
      rw [hchars rfl]
      exact Bool.false_ne_true
  . refine ⟨h.twoBytes, ?_⟩
    unfold append
    dsimp only
    rw [length_append]
    omega

theorem infallibleAppendSubstring_eq {sub : JSSubString} (hgives : s.Gives sub chars)
    (h : sb.Holds s (chars.length + n))
    : sb.infallibleAppendSubstring sub = some (sb.append chars) ∧ (sb.append chars).Holds s n := by
  unfold infallibleAppendSubstring
  rw [if_neg (Nat.not_lt.mpr hgives.inBounds), hgives.text_eq]
  apply infallibleAppend_eq h
  intro hlatin1
  exact hgives.twoBytes (Bool.not_eq_false' .. ▸ hlatin1)

end JSStringBuilder

namespace Substitution

open JSStringBuilder

variable {s : Substitution} {cnc : Nat} {lit currentDollar rest : List CharT} {sb : JSStringBuilder}

structure AtDollar (s : Substitution) (rounds cnc : Nat) (rest : List CharT) : Prop where
  rounds_gt : rest.length + 1 < rounds
  suffix : unit '$' :: rest <:+ s.replacement.units
  available : s.Available cnc (unit '$' :: rest)

theorem AtDollar.next (hrounds : template.length < rounds)
    (hsuffix : template <:+ s.replacement.units) (ha : s.Available cnc template)
    : js_strchr_limit '$' template = none ∧ s.expand cnc template = template
      ∨ ∃ lit rest, js_strchr_limit '$' template = some (unit '$' :: rest) ∧ template = lit ++ unit '$' :: rest
        ∧ s.expand cnc template = lit ++ s.expand cnc (unit '$' :: rest) ∧ s.AtDollar rounds cnc rest := by
  rcases js_strchr_limit_cases '$' template with ⟨hnone, hnot⟩ | ⟨lit, rest, hsome, rfl, hnot⟩
  . have happend : s.expand cnc (template ++ []) = template ++ s.expand cnc [] := expand_append hnot
    rw [append_nil] at happend
    refine .inl ⟨hnone, happend.trans (append_nil _)⟩
  refine .inr ⟨lit, rest, hsome, rfl, expand_append hnot, ?_, ?_, ha.of_append hnot⟩
  . rw [length_append, length_cons] at hrounds
    omega
  . exact (suffix_append lit _).trans hsuffix

theorem DoReplaceFrom_eq (hwf : s.WellFormed) (hat : s.AtDollar rounds cnc rest)
    (hsuffix : lit ++ unit '$' :: rest <:+ s.replacement.units)
    (hsb : sb.Holds s (lit.length + (s.expand cnc (unit '$' :: rest)).length + n))
    : s.DoReplaceFrom rounds (lit ++ unit '$' :: rest) (unit '$' :: rest) cnc sb
        = some (sb.append (lit ++ s.expand cnc (unit '$' :: rest)))
      ∧ (sb.append (lit ++ s.expand cnc (unit '$' :: rest))).Holds s n := by
  induction rounds generalizing lit rest cnc sb with
  | zero => exact absurd hat.rounds_gt (Nat.not_lt_zero _)
  | succ rounds ih =>
    have hlatin1 : (!s.replacement.hasTwoByteChars) = false → s.NeedTwoBytes = true := by
      intro h
      exact needTwoBytes_of_replacement (Bool.not_eq_false' .. ▸ h)
    have hnext {first tail : List CharT} {sb : JSStringBuilder} {cnc : Nat} (hlt : tail.length < rounds)
        (hfirst : first ++ tail <:+ s.replacement.units) (ha : s.Available cnc tail)
        (hsb : sb.Holds s (first.length + (s.expand cnc tail).length + n))
        : (js_strchr_limit '$' tail).elim (sb.infallibleAppend (!s.replacement.hasTwoByteChars) (first ++ tail))
              (s.DoReplaceFrom rounds (first ++ tail) · cnc sb)
            = some (sb.append (first ++ s.expand cnc tail))
          ∧ (sb.append (first ++ s.expand cnc tail)).Holds s n := by
      rcases AtDollar.next hlt ((suffix_append first _).trans hfirst) ha with
        ⟨hnone, hexpand⟩ | ⟨lit, rest, hsome, rfl, hexpand, hat⟩
      . rw [hnone, hexpand]
        rw [hexpand, ← length_append] at hsb
        exact infallibleAppend_eq hsb hlatin1
      rw [hsome, hexpand]
      rw [← append_assoc, ← append_assoc]
      rw [← append_assoc] at hfirst
      apply ih hat hfirst
      rw [hexpand, length_append] at hsb
      rw [length_append, Nat.add_assoc first.length]
      exact hsb
    have hlen : (lit ++ unit '$' :: rest).length - (unit '$' :: rest).length = lit.length := by
      rw [length_append]
      omega
    rw [Nat.add_assoc] at hsb
    obtain ⟨happend, hsb1⟩ := infallibleAppend_eq hsb hlatin1
    have hrounds := hat.rounds_gt
    unfold DoReplaceFrom
    rw [hlen]
    dsimp only
    rw [take_left, happend, some_bind]
    have hagrees := InterpretDollar_agrees hwf hat.suffix hat.available
    rcases hsymbol : symbolOf true s.captures.length (!s.namedCaptures.isEmpty) rest with _ | ⟨symbol, n'⟩
    . rw [hsymbol] at hagrees
      have hinterpret : s.InterpretDollar (unit '$' :: rest) cnc = some none := hagrees
      rw [hinterpret, some_bind, some_bind]
      rw [expand_of_none hsymbol] at hsb1 ⊢
      have hfirst : [unit '$'] ++ rest <:+ s.replacement.units := hat.suffix
      have hrest := hnext (by omega) hfirst (hat.available.of_none hsymbol)
        (by rw [length_singleton, Nat.add_comm 1]; exact hsb1)
      rw [append_append] at hrest
      dsimp only
      rw [drop_succ_cons, drop_zero]
      generalize js_strchr_limit '$' rest = next at hrest ⊢
      cases next <;> exact hrest
    rw [hsymbol] at hagrees
    obtain ⟨sub, next, hinterpret, hdrop, hnextEq, hgives⟩ := hagrees
    have hle := symbolOf_le hsymbol
    rw [expand_of_some hsymbol hdrop] at hsb1 ⊢
    rw [length_append, Nat.add_assoc] at hsb1
    obtain ⟨hsub, hsb2⟩ := infallibleAppendSubstring_eq hgives hsb1
    rw [hinterpret, some_bind]
    dsimp only
    rw [hsub, Option.bind_eq_bind, some_bind, if_pos (by rw [length_cons]; omega), Option.bind_some, drop_succ_cons]
    have hfirst : [] ++ rest.drop n' <:+ s.replacement.units :=
      (drop_suffix n' rest).trans ((suffix_cons _ rest).trans hat.suffix)
    have hrest := hnext (by rw [length_drop]; omega) hfirst (hnextEq ▸ hat.available.of_some hsymbol)
      (by rw [length_nil, Nat.zero_add]; exact hsb2)
    rw [← append_append, ← append_append]
    dsimp only
    generalize js_strchr_limit '$' (rest.drop n') = next at hrest ⊢
    cases next <;> exact hrest

def Counts (replen : Option Nat) (n bound : Nat) : Prop :=
  (∀ r, replen = some r → r = n) ∧ (bound < 2 ^ 32 → replen = some n)

theorem Counts.checkedAdd {n k bound : Nat} (hk : n + k ≤ bound) (h : Counts replen n bound)
    : Counts (checkedAdd replen k) (n + k) bound := by
  unfold Substitution.checkedAdd
  constructor
  . intro r hr
    obtain ⟨a, rfl, ha⟩ := Option.bind_eq_some_iff.mp hr
    have := h.1 a rfl
    split at ha
    next => cases ha; omega
    next => cases ha
  . intro hlt
    rw [h.2 hlt, Option.bind_some, if_pos (by omega)]

theorem Counts.checkedSub {n k bound : Nat} (hk : k ≤ n) (hn : n ≤ bound)
    (h : Counts replen n bound) : Counts (checkedSub replen k) (n - k) bound := by
  unfold Substitution.checkedSub
  constructor
  . intro r hr
    obtain ⟨a, rfl, ha⟩ := Option.bind_eq_some_iff.mp hr
    have := h.1 a rfl
    split at ha
    next => cases ha; omega
    next => cases ha
  . intro hlt
    rw [h.2 hlt, Option.bind_some, if_pos (by omega)]

theorem FindReplaceLengthFrom_counts (hwf : s.WellFormed) {rounds done bound : Nat}
    (hat : s.AtDollar rounds cnc rest) (hreplen : Counts replen (done + (rest.length + 1)) bound)
    (hbound : done + (rest.length + 1) + (s.expand cnc (unit '$' :: rest)).length ≤ bound)
    : ∃ r, s.FindReplaceLengthFrom rounds (unit '$' :: rest) cnc replen = some r
      ∧ Counts r (done + (s.expand cnc (unit '$' :: rest)).length) bound := by
  induction rounds generalizing rest cnc replen done with
  | zero => exact absurd hat.rounds_gt (Nat.not_lt_zero _)
  | succ rounds ih =>
    have hnext {tail : List CharT} {replen : Option Nat} {cnc done : Nat} (hlt : tail.length < rounds)
        (hsuffix : tail <:+ s.replacement.units) (ha : s.Available cnc tail)
        (hreplen : Counts replen (done + tail.length) bound)
        (hbound : done + tail.length + (s.expand cnc tail).length ≤ bound)
        : ∃ r, (js_strchr_limit '$' tail).elim (some replen) (s.FindReplaceLengthFrom rounds · cnc replen) = some r
          ∧ Counts r (done + (s.expand cnc tail).length) bound := by
      rcases AtDollar.next hlt hsuffix ha with ⟨hnone, hexpand⟩ | ⟨lit, rest, hsome, rfl, hexpand, hat⟩
      . rw [hnone, hexpand]
        exact ⟨replen, rfl, hreplen⟩
      rw [hexpand, length_append] at hbound ⊢
      rw [length_append, length_cons, ← Nat.add_assoc] at hreplen
      rw [length_append, length_cons] at hbound
      rw [hsome, ← Nat.add_assoc]
      exact ih hat hreplen (by omega)
    have hrounds := hat.rounds_gt
    unfold FindReplaceLengthFrom
    have hagrees := InterpretDollar_agrees hwf hat.suffix hat.available
    have hrest : rest <:+ s.replacement.units := (suffix_cons _ rest).trans hat.suffix
    rcases hsymbol : symbolOf true s.captures.length (!s.namedCaptures.isEmpty) rest with _ | ⟨symbol, n'⟩
    . rw [hsymbol] at hagrees
      have hinterpret : s.InterpretDollar (unit '$' :: rest) cnc = some none := hagrees
      have hexpand : (s.expand cnc (unit '$' :: rest)).length = 1 + (s.expand cnc rest).length := by
        rw [expand_of_none hsymbol, length_cons, Nat.add_comm]
      rw [hexpand] at hbound ⊢
      rw [hinterpret, some_bind, some_bind, ← Nat.add_assoc]
      rw [Nat.add_comm _ 1, ← Nat.add_assoc] at hreplen
      have hle : done + 1 + rest.length + (s.expand cnc rest).length ≤ bound := by omega
      have hcounts := hnext (show rest.length < rounds by omega) hrest (hat.available.of_none hsymbol) hreplen hle
      dsimp only
      rw [drop_succ_cons, drop_zero]
      generalize js_strchr_limit '$' rest = next at hcounts ⊢
      cases next <;> exact hcounts
    rw [hsymbol] at hagrees
    obtain ⟨sub, next, hinterpret, hdrop, hnextEq, hgives⟩ := hagrees
    have hle := symbolOf_le hsymbol
    have htext : sub.length = (s.textWith (s.namedCaptures.drop cnc) symbol).length := by
      rw [← hgives.text_eq, length_take, length_drop, sub.base.length_units]
      have := hgives.inBounds
      omega
    rw [expand_of_some hsymbol hdrop, length_append, ← htext] at hbound ⊢
    rw [hinterpret, some_bind]
    dsimp only
    rw [if_pos (by rw [length_cons]; omega), some_bind, drop_succ_cons, ← Nat.add_assoc]
    dsimp only
    have hlength : (rest.drop n').length = rest.length - n' := length_drop
    have hreplen : Counts (if sub.length > n' + 1 then checkedAdd replen (sub.length - (n' + 1))
        else checkedSub replen (n' + 1 - sub.length)) (done + sub.length + (rest.drop n').length) bound := by
      rw [hlength]
      split
      next hgt =>
        have hadd := hreplen.checkedAdd (k := sub.length - (n' + 1)) (by omega)
        rw [show done + (rest.length + 1) + (sub.length - (n' + 1)) = done + sub.length + (rest.length - n') by omega]
          at hadd
        exact hadd
      next hgt =>
        have hsub := hreplen.checkedSub (k := n' + 1 - sub.length) (by omega) (by omega)
        rw [show done + (rest.length + 1) - (n' + 1 - sub.length) = done + sub.length + (rest.length - n') by omega]
          at hsub
        exact hsub
    have hcounts := hnext (by omega) ((drop_suffix n' rest).trans hrest) (hnextEq ▸ hat.available.of_some hsymbol)
      hreplen (by omega)
    generalize js_strchr_limit '$' (rest.drop n') = o at hcounts ⊢
    cases o <;> exact hcounts

end Substitution

section Names

open Substitution (names_append names_units)

variable {extended hasGroups : Bool} {m n : Nat} {symbol : Symbol} {c : CharT} {lit rest : List CharT}

theorem dollar_not_digit (h : IsAsciiDigit c = true) : c ≠ unit '$' := by
  rintro rfl
  exact absurd h (by decide)

theorem symbolOf_takes (hless : c ≠ unit '<') (h : symbolOf extended m hasGroups (c :: rest) = some (symbol, n))
    : symbol.name? = none ∧ (n = 1 ∨ n = 2 ∧ ∃ c' tail, rest = c' :: tail ∧ c' ≠ unit '$') := by
  dsimp only [symbolOf] at h
  by_cases hdigit : IsAsciiDigit c = true
  . rw [if_pos hdigit] at h
    obtain ⟨htakes, hname⟩ := captureSymbol_takes h
    apply And.intro hname
    apply htakes.imp_right
    rintro ⟨hn, c', tail, heq, hdigit⟩
    exact ⟨hn, c', tail, heq, dollar_not_digit hdigit⟩
  . rw [if_neg hdigit, if_neg hless] at h
    split_ifs at h
    all_goals
      cases h
      exact ⟨rfl, .inl rfl⟩

theorem names_symbols_append (h : unit '$' ∉ lit)
    : names (symbols extended m hasGroups 0 (lit ++ rest)) = names (symbols extended m hasGroups 0 rest) := by
  rw [symbols_append h, names_append, names_units]
  rfl

theorem names_other (hless : c ≠ unit '<')
    : names (symbols extended m hasGroups 0 (unit '$' :: c :: rest)) = names (symbols extended m hasGroups 0 rest) := by
  rcases hsymbol : symbolOf extended m hasGroups (c :: rest) with _ | ⟨symbol, n⟩
  . have hdollar : c ≠ unit '$' := by
      rintro rfl
      cases hsymbol
    rw [symbols_of_none hsymbol, symbols, if_neg hdollar]
    rfl
  obtain ⟨hname, htakes⟩ := symbolOf_takes hless hsymbol
  have hnames : names [symbol] = [] := by
    unfold names
    rw [filterMap_cons_none hname]
    rfl
  rw [symbols_of_some hsymbol, ← singleton_append, names_append, hnames, nil_append]
  rcases htakes with rfl | ⟨rfl, c', tail, rfl, hne⟩
  . rfl
  . have hlit : unit '$' ∉ [c'] := fun hmem => hne (mem_singleton.mp hmem).symm
    exact (names_symbols_append hlit).symm

theorem mem_of_named {name : List CharT} (h : symbolOf extended m hasGroups rest = some (symbol, n))
    (hname : symbol.name? = some name) : hasGroups = true ∧ unit '>' ∈ rest := by
  cases rest with
  | nil => cases h
  | cons c rest =>
    by_cases hless : c = unit '<'
    . subst hless
      by_cases hmem : hasGroups = true ∧ unit '>' ∈ rest
      . exact ⟨hmem.1, mem_cons_of_mem _ hmem.2⟩
      . have hnone : symbolOf extended m hasGroups (unit '<' :: rest) = none := if_neg hmem
        cases hnone.symm.trans h
    . rw [(symbolOf_takes hless h).1] at hname
      cases hname

theorem names_eq_nil (k : Nat) (h : hasGroups = true → unit '>' ∉ rest)
    : names (symbols extended m hasGroups k rest) = [] := by
  induction rest generalizing k with
  | nil => cases k <;> rfl
  | cons c rest ih =>
    have hrest (hgroups : hasGroups = true) := not_mem_of_not_mem_cons (h hgroups)
    cases k with
    | succ k => exact ih k hrest
    | zero =>
      unfold symbols
      split
      next =>
        split
        next symbol n hsymbol =>
          have hname : symbol.name? = none := by
            rcases hname : symbol.name? with _ | name
            . rfl
            . have hmem := mem_of_named hsymbol hname
              exact absurd hmem.2 (hrest hmem.1)
          unfold names
          rw [filterMap_cons_none hname]
          exact ih n hrest
        next => exact ih 0 hrest
      next => exact ih 0 hrest

theorem CollectNamesFrom_eq (m : Nat) (hrounds : rest.length + 1 < rounds) (found : List (List CharT))
    : CollectNamesFrom rounds (unit '$' :: rest) found
      = some (found ++ names (symbols true m true 0 (unit '$' :: rest))) := by
  induction rounds generalizing rest found with
  | zero => exact absurd hrounds (Nat.not_lt_zero _)
  | succ rounds ih =>
    have hnext {tail : List CharT} (found : List (List CharT)) (hlt : tail.length < rounds)
        : (js_strchr_limit '$' tail).elim (some found) (CollectNamesFrom rounds · found)
          = some (found ++ names (symbols true m true 0 tail)) := by
      rcases js_strchr_limit_cases '$' tail with ⟨hnone, hnot⟩ | ⟨lit, rest, hsome, rfl, hnot⟩
      . rw [hnone, symbols_of_not_mem hnot, names_units, append_nil, Option.elim_none]
      rw [length_append, length_cons] at hlt
      rw [hsome, names_symbols_append hnot]
      exact ih (by omega) found
    cases rest with
    | nil => exact congrArg some (append_nil found).symm
    | cons c rest =>
      rw [length_cons] at hrounds
      unfold CollectNamesFrom
      dsimp only
      by_cases hless : c = unit '<'
      . subst hless
        rw [if_pos rfl]
        by_cases hend : unit '>' ∈ rest
        . obtain ⟨tail, hstr, heq⟩ := takeWhile_append_of_mem hend
          have hsymbol : symbolOf true m true (unit '<' :: rest)
              = some (.named (rest.takeWhile (· ≠ unit '>')), (rest.takeWhile (· ≠ unit '>')).length + 2) :=
            if_pos ⟨rfl, hend⟩
          generalize rest.takeWhile (· ≠ unit '>') = name at heq hsymbol
          subst heq
          rw [length_append, length_cons] at hrounds
          have hname : (name ++ unit '>' :: tail).length - (unit '>' :: tail).length = name.length := by
            rw [length_append]
            omega
          have hdrop : (unit '<' :: (name ++ unit '>' :: tail)).drop (name.length + 2) = tail := by
            rw [drop_succ_cons, ← drop_drop, drop_left]
            rfl
          rw [hstr]
          dsimp only
          rw [hname, take_left, symbols_of_some hsymbol, hdrop]
          have hresult := hnext (found ++ [name]) (show tail.length < rounds by omega)
          rw [append_assoc] at hresult
          rw [drop_succ_cons, drop_zero]
          generalize js_strchr_limit '$' tail = next at hresult ⊢
          cases next <;> exact hresult
        . have hnone : js_strchr_limit '>' rest = none := by
            rcases js_strchr_limit_cases '>' rest with ⟨hnone, _⟩ | ⟨lit, tail, _, rfl, _⟩
            . exact hnone
            . exact absurd (mem_append_right _ mem_cons_self) hend
          have hempty : names (symbols true m true 0 (unit '$' :: unit '<' :: rest)) = [] :=
            names_eq_nil 0 fun _ => not_mem_cons_of_ne_of_not_mem (by decide)
              (not_mem_cons_of_ne_of_not_mem (by decide) hend)
          rw [hnone, hempty, append_nil]
      . rw [if_neg hless, names_other hless]
        have hresult := hnext found (show rest.length < rounds by omega)
        generalize js_strchr_limit '$' rest = next at hresult ⊢
        cases next <;> exact hresult

theorem symbolOf_groups (h : ∀ symbol n, symbolOf extended m true rest = some (symbol, n) → symbol.name? = none)
    : symbolOf extended m false rest = symbolOf extended m true rest := by
  cases rest with
  | nil => rfl
  | cons c rest =>
    by_cases hless : c = unit '<'
    . subst hless
      by_cases hmem : unit '>' ∈ rest
      . have hname := h _ _ (if_pos ⟨rfl, hmem⟩)
        cases hname
      have hnone (hasGroups : Bool) : symbolOf extended m hasGroups (unit '<' :: rest) = none :=
        if_neg fun hand => hmem hand.2
      rw [hnone, hnone]
    . dsimp only [symbolOf]
      rw [if_neg hless, if_neg hless]

theorem symbols_of_names_nil (k : Nat) (h : names (symbols extended m true k rest) = [])
    : symbols extended m false k rest = symbols extended m true k rest := by
  induction rest generalizing k with
  | nil => cases k <;> rfl
  | cons c rest ih =>
    cases k with
    | succ k => exact ih k h
    | zero =>
      by_cases hdollar : c = unit '$'
      . subst hdollar
        rcases hsymbol : symbolOf extended m true rest with _ | ⟨symbol, n⟩
        . have hfalse : symbolOf extended m false rest = none := by
            rw [← hsymbol]
            exact symbolOf_groups fun symbol n heq => nomatch hsymbol.symm.trans heq
          rw [symbols_of_none hsymbol] at h ⊢
          rw [symbols_of_none hfalse, ih 0 h]
        have hname : symbol.name? = none := by
          rw [symbols_of_some hsymbol] at h
          rcases hname : symbol.name? with _ | name
          . rfl
          unfold names at h
          rw [filterMap_cons_some hname] at h
          cases h
        have hfalse : symbolOf extended m false rest = some (symbol, n) := by
          rw [← hsymbol]
          apply symbolOf_groups
          intro symbol' n' heq
          cases hsymbol.symm.trans heq
          exact hname
        rw [symbols_of_some hsymbol] at h ⊢
        unfold names at h
        rw [filterMap_cons_none hname, ← symbols_skip] at h
        rw [symbols_of_some hfalse, ← symbols_skip, ih n h, symbols_skip]
      . have hcons (hasGroups : Bool) : symbols extended m hasGroups 0 (c :: rest)
            = .unit c :: symbols extended m hasGroups 0 rest := if_neg hdollar
        rw [hcons] at h ⊢
        rw [hcons, ih 0 h]

end Names

section Gets

variable {σ ε : Type}

theorem Substitution.expandWith_namedCaptures (s : Substitution) (namedCaptures : CapturesVector)
    (template : List Symbol) (vals : CapturesVector)
    : Substitution.expandWith { s with namedCaptures := namedCaptures } template vals = s.expandWith template vals := by
  induction template generalizing vals with
  | nil => rfl
  | cons symbol template ih =>
    unfold Substitution.expandWith
    rw [ih]
    cases symbol <;> rfl

theorem mapM_expandSymbol (s : Substitution) (get : Groups σ ε) (template : List Symbol)
    : (do
        let parts ← template.mapM (expandSymbol s.matched s.string s.position s.captures get)
        return parts.flatten)
      = do
        let vals ← (names template).mapM get
        return s.expandWith template vals := by
  induction template with
  | nil => rfl
  | cons symbol template ih =>
    have hafter (text : List CharT)
        : (do
            let parts ← template.mapM (expandSymbol s.matched s.string s.position s.captures get)
            return text ++ parts.flatten)
          = do
            let vals ← (names template).mapM get
            return text ++ s.expandWith template vals := by
      have hmap := congrArg (fun gets => gets >>= fun rest => pure (text ++ rest)) ih
      simp only [bind_assoc, pure_bind] at hmap
      exact hmap
    cases symbol with
    | named name =>
      have hnames : names (.named name :: template) = name :: names template := rfl
      rw [hnames]
      simp only [mapM_cons, expandSymbol, bind_assoc, pure_bind, flatten_cons, hafter]
      rfl
    | _ =>
      simp only [mapM_cons, expandSymbol, bind_assoc, pure_bind, flatten_cons, hafter]
      rfl

theorem ensures_length (get : Groups σ ε) (names : List (List CharT))
    : Ensures (names.mapM get) (fun vals => vals.length = names.length) := by
  induction names with
  | nil =>
    exact Ensures.pure rfl
  | cons name names ih =>
    rw [mapM_cons]
    apply Ensures.bind (Ensures.true _)
    intro val _
    apply ih.bind
    intro vals hvals
    apply Ensures.pure
    rw [length_cons, length_cons, hvals]

end Gets

theorem GetFirstDollarIndexRawFlat_eq {text : JSLinearString} {n : Nat} (h : GetFirstDollarIndexRawFlat text = n)
    : ∃ lit rest, text.units = lit ++ unit '$' :: rest ∧ lit.length = n ∧ unit '$' ∉ lit := by
  unfold GetFirstDollarIndexRawFlat at h
  rcases js_strchr_limit_cases '$' text.units with ⟨hnone, _⟩ | ⟨lit, rest, hsome, heq, hnot⟩
  . rw [hnone] at h
    cases h
  rw [hsome, heq, length_append] at h
  dsimp only at h
  exact ⟨lit, rest, heq, by omega, hnot⟩

theorem CollectNames_eq (m : Nat) {replacement : JSLinearString} {firstDollarIndex : Nat}
    (h : GetFirstDollarIndexRawFlat replacement = firstDollarIndex)
    : CollectNames replacement firstDollarIndex = some (names (symbols true m true 0 replacement.units)) := by
  obtain ⟨lit, rest, heq, rfl, hnot⟩ := GetFirstDollarIndexRawFlat_eq h
  unfold CollectNames
  rw [heq, drop_left, names_symbols_append hnot, CollectNamesFrom_eq m]
  . rfl
  . rw [length_append, length_cons]
    omega

namespace Substitution

variable {s : Substitution} {firstDollarIndex : Nat}

theorem Named.of_length (h : s.namedCaptures.length
    = (names (symbols true s.captures.length hasGroups 0 s.replacement.units)).length) : s.Named hasGroups := by
  cases hasGroups with
  | false =>
    rw [names_eq_nil 0 fun h => absurd h Bool.false_ne_true] at h
    exact h
  | true => exact h

theorem Named.symbolsOf_eq (h : s.Named hasGroups)
    : s.symbolsOf s.replacement.units = symbols true s.captures.length hasGroups 0 s.replacement.units := by
  unfold symbolsOf
  unfold Named at h
  cases hasGroups with
  | false => rw [eq_nil_of_length_eq_zero h, isEmpty_nil, Bool.not_true]
  | true =>
    rcases hvals : s.namedCaptures with _ | ⟨val, vals⟩
    . rw [hvals, length_nil] at h
      exact symbols_of_names_nil 0 (eq_nil_of_length_eq_zero h.symm)
    . rfl

structure Replaces (s : Substitution) (firstDollarIndex : Nat) (hasGroups : Bool) : Prop extends s.WellFormed where
  first : GetFirstDollarIndexRawFlat s.replacement = firstDollarIndex
  named : s.Named hasGroups
  after : .after ∈ symbols true s.captures.length hasGroups 0 s.replacement.units → s.tailPos ≤ s.string.length

variable {hasGroups : Bool} (h : s.Replaces firstDollarIndex hasGroups)
include h

theorem Replaces.expand_eq : s.expand 0 s.replacement.units = s.text hasGroups := by
  unfold expand text
  rw [h.named.symbolsOf_eq, drop_zero]

theorem Replaces.available : s.Available 0 s.replacement.units where
  names_le := by
    have hnamed := h.named
    rw [hnamed.symbolsOf_eq, Nat.zero_add]
    rw [hnamed]
    cases hasGroups with
    | false =>
      rw [names_eq_nil 0 (fun h => absurd h Bool.false_ne_true)]
      exact Nat.le_refl 0
    | true => exact Nat.le_refl _
  after := by
    rw [h.named.symbolsOf_eq]
    exact h.after

theorem Replaces.atDollar
    : ∃ lit rest, s.replacement.units = lit ++ unit '$' :: rest ∧ lit.length = firstDollarIndex
      ∧ s.text hasGroups = lit ++ s.expand 0 (unit '$' :: rest)
      ∧ s.AtDollar (s.replacement.units.length + 1) 0 rest := by
  obtain ⟨lit, rest, heq, hlength, hnot⟩ := GetFirstDollarIndexRawFlat_eq h.first
  have ha := h.available
  have htext := h.expand_eq
  refine ⟨lit, rest, heq, hlength, ?_, ?_, ?_, ?_⟩
  . rw [← htext, heq, expand_append hnot]
  . rw [heq, length_append, length_cons]
    omega
  . exact ⟨lit, heq.symm⟩
  . rw [heq] at ha
    exact ha.of_append hnot

theorem Replaces.FindReplaceLength_counts
    : ∃ r, s.FindReplaceLength firstDollarIndex = some r
      ∧ Counts r (s.text hasGroups).length (s.replacement.units.length + (s.text hasGroups).length) := by
  obtain ⟨lit, rest, heq, rfl, htext, hat⟩ := h.atDollar
  have hstart : Counts (some 0) 0 (s.replacement.units.length + (s.text hasGroups).length) :=
    ⟨fun r hr => (Option.some.inj hr).symm, fun _ => rfl⟩
  have hreplen := hstart.checkedAdd (show 0 + s.replacement.units.length ≤ _ by omega)
  have hlength : 0 + s.replacement.units.length = lit.length + (rest.length + 1) := by
    rw [heq, length_append, length_cons, Nat.zero_add]
  rw [hlength] at hreplen
  have hdrop : s.replacement.units.drop lit.length = unit '$' :: rest := by
    rw [heq, drop_left]
  unfold FindReplaceLength
  dsimp only
  rw [hdrop]
  have hcounts := FindReplaceLengthFrom_counts h.toWellFormed hat hreplen (by rw [htext, length_append]; omega)
  rw [htext, length_append]
  rw [htext, length_append] at hcounts
  exact hcounts

theorem Replaces.DoReplace_eq (hsb : sb.Holds s ((s.text hasGroups).length + n))
    : s.DoReplace firstDollarIndex sb = some (sb.append (s.text hasGroups)) := by
  obtain ⟨lit, rest, heq, rfl, htext, hat⟩ := h.atDollar
  have hdrop : s.replacement.units.drop lit.length = unit '$' :: rest := by
    rw [heq, drop_left]
  unfold DoReplace
  dsimp only
  rw [hdrop, htext]
  rw [htext, length_append] at hsb
  have hrun := (DoReplaceFrom_eq h.toWellFormed hat (heq ▸ suffix_refl _) hsb).1
  rw [← heq] at hrun
  exact hrun

theorem Replaces.FindReplaceLength_exact (hlen : s.FindReplaceLength firstDollarIndex = some (some len))
    : len = (s.text hasGroups).length ∧ s.DoReplace firstDollarIndex ⟨⟨!s.NeedTwoBytes, []⟩, len⟩
        = some ⟨⟨!s.NeedTwoBytes, s.text hasGroups⟩, len⟩ := by
  obtain ⟨r, hr, hcounts⟩ := h.FindReplaceLength_counts
  rw [hlen, Option.some.injEq] at hr
  have heq := hcounts.1 len hr.symm
  refine ⟨heq, h.DoReplace_eq (n := 0) ⟨rfl, ?_⟩⟩
  rw [heq]
  exact Nat.le_of_eq (Nat.zero_add _)

theorem Replaces.replaceWith_eq (hmatched : s.matched.length ≤ MaxStringLength)
    : replaceWith s.matched s.string s.position s.captures s.replacement firstDollarIndex s.namedCaptures
      = some (if (s.text hasGroups).length > MaxStringLength then none else some (s.text hasGroups)) := by
  have hposition := Nat.le_trans h.position_le h.length_le
  have htailPos : checkedAdd (checkedAdd (some 0) s.position) s.matched.length = some s.tailPos := by
    unfold MaxStringLength at hmatched hposition
    unfold checkedAdd
    rw [Option.bind_some, if_pos (by omega), Option.bind_some, if_pos (by omega), Nat.zero_add, h.tailPos_eq]
  obtain ⟨r, hr, hcounts⟩ := h.FindReplaceLength_counts
  unfold replaceWith
  rw [htailPos]
  dsimp only
  rw [hr, some_bind]
  cases r with
  | none =>
    have hlong : (s.text hasGroups).length > MaxStringLength := by
      have hreplacement := h.replacement_le
      rw [← s.replacement.length_units] at hreplacement
      have hbound : ¬s.replacement.units.length + (s.text hasGroups).length < 2 ^ 32 := fun hlt => nomatch hcounts.2 hlt
      unfold MaxStringLength at hreplacement ⊢
      omega
    rw [if_pos hlong]
  | some len =>
    dsimp only
    rw [(h.FindReplaceLength_exact hr).2, some_bind]
    split
    next => rfl
    next => rfl

end Substitution

section

variable {σ ε : Type} {replacement : JSLinearString} {firstDollarIndex : Nat}

theorem initNamedCaptures_eq (m : Nat) (groups : Option (Groups σ ε))
    (h : GetFirstDollarIndexRawFlat replacement = firstDollarIndex)
    : initNamedCaptures replacement groups firstDollarIndex = do
        let vals ← (names (symbols true m groups.isSome 0 replacement.units)).mapM (groups.getD fun _ => return none)
        return some vals := by
  cases groups with
  | none =>
    have hnil : names (symbols true m false 0 replacement.units) = [] :=
      names_eq_nil 0 fun h => absurd h Bool.false_ne_true
    show _ = List.mapM _ (names (symbols true m false 0 replacement.units)) >>= _
    rw [hnil, mapM_nil, pure_bind]
    rfl
  | some groups =>
    unfold initNamedCaptures
    unfold InitNamedCaptures
    rw [CollectNames_eq m h]
    rfl

theorem GetSubstitution_eq (matched string : JSLinearString) (position tailPos : Nat) (captures : CapturesVector)
    (groups : Option (Groups σ ε))
    : GetSubstitution true matched string position captures replacement groups = do
        let vals ← (names (symbols true captures.length groups.isSome 0 replacement.units)).mapM
          (groups.getD fun _ => return none)
        return Substitution.text ⟨matched, string, position, tailPos, captures, vals, replacement⟩ groups.isSome := by
  let s : Substitution := ⟨matched, string, position, tailPos, captures, [], replacement⟩
  have hparts := mapM_expandSymbol s (groups.getD fun _ => return none)
    (symbols true captures.length groups.isSome 0 replacement.units)
  apply hparts.trans
  congr 1
  funext vals
  exact congrArg pure (s.expandWith_namedCaptures vals _ vals).symm

end

open Substitution

variable {σ ε : Type}

theorem RegExpGetSubstitution_exact (allocationOverflow : ε) (matched : JSLinearString) (captures : CapturesVector)
    (string : JSLinearString) (position : Nat) (replacement : JSLinearString) (firstDollarIndex : Nat)
    (groups : Option (Groups σ ε)) (hposition : position ≤ string.length) (hmatched : matched.length ≤ MaxStringLength)
    (hstring : string.length ≤ MaxStringLength) (hreplacement : replacement.length ≤ MaxStringLength)
    (hfirst : GetFirstDollarIndexRawFlat replacement = firstDollarIndex)
    (hafter : .after ∈ symbols true captures.length groups.isSome 0 replacement.units →
      position + matched.length ≤ string.length)
    : CollectNames replacement firstDollarIndex = some (names (symbols true captures.length true 0 replacement.units))
      ∧ (∀ namedCaptures,
        let s : Substitution :=
          ⟨matched, string, position, position + matched.length, captures, namedCaptures, replacement⟩
        s.Named groups.isSome → (s.FindReplaceLength firstDollarIndex).isSome
          ∧ ∀ len, s.FindReplaceLength firstDollarIndex = some (some len) → len = (s.text groups.isSome).length
            ∧ s.DoReplace firstDollarIndex ⟨⟨!s.NeedTwoBytes, []⟩, len⟩
              = some ⟨⟨!s.NeedTwoBytes, s.text groups.isSome⟩, len⟩)
      ∧ RegExpGetSubstitution allocationOverflow matched captures string position replacement firstDollarIndex groups
        = do
          let text ← GetSubstitution true matched string position captures replacement groups
          if text.length > MaxStringLength then throw allocationOverflow else return some text := by
  have hreplaces (namedCaptures : CapturesVector)
      (hnamed : Named ⟨matched, string, position, position + matched.length, captures, namedCaptures, replacement⟩
        groups.isSome)
      : Replaces ⟨matched, string, position, position + matched.length, captures, namedCaptures, replacement⟩
        firstDollarIndex groups.isSome :=
    ⟨⟨hposition, rfl, hstring, hreplacement⟩, hfirst, hnamed, hafter⟩
  refine ⟨CollectNames_eq _ hfirst, ?_, ?_⟩
  . intro namedCaptures s hnamed
    have hs := hreplaces namedCaptures hnamed
    obtain ⟨r, hr, _⟩ := hs.FindReplaceLength_counts
    exact ⟨Option.isSome_of_eq_some hr, fun len => hs.FindReplaceLength_exact⟩
  unfold RegExpGetSubstitution
  rw [initNamedCaptures_eq captures.length groups hfirst,
    GetSubstitution_eq matched string position (position + matched.length) captures groups]
  simp only [bind_assoc, pure_bind]
  apply (ensures_length _ _).bind_congr
  intro vals hvals
  have hs := hreplaces vals (Named.of_length hvals)
  rw [hs.replaceWith_eq hmatched]
  by_cases hlong : MaxStringLength < (text ⟨matched, string, position, position + matched.length, captures, vals,
      replacement⟩ groups.isSome).length
  . rw [if_pos hlong, if_pos hlong]
  . rw [if_neg hlong, if_neg hlong]

def latin1 (text : String) : JSLinearString := .latin1 (text.toList.map fun c => BitVec.ofNat 8 c.toNat)

theorem RegExpGetSubstitution_exact_of_template
    : let groups : Groups Unit Unit := fun name => return if name = (latin1 "n").units then some (latin1 "v") else none
      let replacement := latin1 "-$1$<n>$'"
      CollectNames replacement 1 = some [(latin1 "n").units]
      ∧ RegExpGetSubstitution () (latin1 "b") [some (latin1 "x")] (latin1 "abc") 1 replacement 1 (some groups) ()
        = .ok (some (latin1 "-xvc").units, ()) := by
  intro groups replacement
  have h := RegExpGetSubstitution_exact () (latin1 "b") [some (latin1 "x")] (latin1 "abc") 1 replacement 1 (some groups)
    (by decide) (by decide) (by decide) (by decide) (by decide) (fun _ => by decide)
  constructor
  . rw [h.1]
    decide
  . rw [h.2.2]
    decide

theorem RegExpGetSubstitution_plus
    : RegExpGetSubstitution () (latin1 "b") [some (latin1 "x")] (latin1 "abc") 1 (latin1 "$+") 0
        (none : Option (Groups Unit Unit)) () = .ok (some (latin1 "x").units, ())
      ∧ GetSubstitution false (latin1 "b") (latin1 "abc") 1 [some (latin1 "x")] (latin1 "$+")
        (none : Option (Groups Unit Unit)) () = .ok ((latin1 "$+").units, ()) := by
  constructor
  . decide
  . decide

end SpiderMonkey.RegExp
