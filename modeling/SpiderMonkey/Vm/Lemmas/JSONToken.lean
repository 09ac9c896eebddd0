import SpiderMonkey.Vm.JSONText
import Mathlib.Data.List.TakeWhile
import Mathlib.Tactic.Linarith

/-!
This module contains the lemmas about the functions that read one token: each of them reads exactly the texts of
the tokens it may return.
-/

namespace SpiderMonkey.JSON

open List RangedPtr

variable {D : Type}

variable {w : List CharT}

theorem whitespace_iff : Whitespace w ↔ ∀ c ∈ w, IsJSONWhitespace c = true := by
  simp only [Whitespace, IsJSONWhitespace, Bool.or_eq_true, decide_eq_true_eq]
  constructor
  . intro h c hc
    rcases h c hc with h | h | h | h <;> simp only [h, true_or, or_true]
  . intro h c hc
    rcases h c hc with ((h | h) | h) | h <;> simp only [h, true_or, or_true]

/- The escapes of a string. -/

variable {c : CharT}

theorem isAsciiHexDigit_iff : IsAsciiHexDigit c = true ↔ HexDigit c (AsciiAlphanumericToNumber c) := by
  simp only [IsAsciiHexDigit, Bool.or_eq_true, Bool.and_eq_true, decide_eq_true_eq]
  constructor
  . rintro ((h | h) | h)
    . rw [AsciiAlphanumericToNumber, if_pos h]
      exact .decimal (by omega) (by omega)
    . rw [AsciiAlphanumericToNumber, if_neg (by omega), if_neg (by omega), Nat.add_comm]
      exact .lower (by omega) (by omega)
    . rw [AsciiAlphanumericToNumber, if_neg (by omega), if_pos (by omega), Nat.add_comm]
      exact .upper (by omega) (by omega)
  . generalize AsciiAlphanumericToNumber c = n
    intro h
    cases h <;> omega

theorem HexDigit.eq (h : HexDigit c n) : AsciiAlphanumericToNumber c = n := by
  rw [AsciiAlphanumericToNumber]
  cases h with
  | decimal hn hc => rw [if_pos (by omega)]; omega
  | upper hn hc => rw [if_neg (by omega), if_pos (by omega)]; omega
  | lower hn hc => rw [if_neg (by omega), if_neg (by omega)]; omega

theorem HexDigit.isAsciiHexDigit (h : HexDigit c n) : IsAsciiHexDigit c = true := by
  rw [isAsciiHexDigit_iff, h.eq]
  exact h

theorem HexDigit.lt {n : Nat} (h : HexDigit c n) : n < 16 := by
  cases h <;> omega

variable {p : CharPtr}

theorem nonHexAt_eq (h : k ≤ p.after.length)
    : nonHexAt p k = some ((p.after[k]?.map fun c => !IsAsciiHexDigit c).getD true) := by
  rw [nonHexAt, RangedPtr.remaining, RangedPtr.get]
  rcases Nat.eq_or_lt_of_le h with rfl | h
  . rw [if_pos rfl, List.getElem?_eq_none (Nat.le_refl _)]
    rfl
  . rw [if_neg (by omega), List.getElem?_eq_getElem h]
    rfl

theorem badUnicodeEscape_isSome (h : ∀ c₀ c₁ c₂ c₃ r, p.after = c₀ :: c₁ :: c₂ :: c₃ :: r →
      ¬(IsAsciiHexDigit c₀ ∧ IsAsciiHexDigit c₁ ∧ IsAsciiHexDigit c₂ ∧ IsAsciiHexDigit c₃))
    : ∃ q, badUnicodeEscape p = some q := by
  have hnext : ∀ k, k ≤ p.after.length → ∃ b, nonHexAt p k = some b ∧
      (b = false → ∃ c, p.after[k]? = some c ∧ IsAsciiHexDigit c = true) := by
    intro k hk
    refine ⟨_, nonHexAt_eq hk, ?_⟩
    intro hb
    cases hc : p.after[k]? with
    | none => rw [hc] at hb; cases hb
    | some c =>
      rw [hc] at hb
      exact ⟨c, rfl, by simpa using hb⟩
  have hlen : ∀ k, (∃ c, p.after[k]? = some c ∧ IsAsciiHexDigit c = true) → k + 1 ≤ p.after.length := by
    rintro k ⟨c, hc, _⟩
    exact (List.getElem?_eq_some_iff.mp hc).1
  rw [badUnicodeEscape]
  obtain ⟨b₀, h₀, hex₀⟩ := hnext 0 (Nat.zero_le _)
  rw [h₀]
  cases b₀ with
  | true => exact ⟨p, rfl⟩
  | false =>
    have l₁ := hlen 0 (hex₀ rfl)
    obtain ⟨b₁, h₁, hex₁⟩ := hnext 1 l₁
    simp only [some_bind, Bool.false_eq_true, if_false, h₁]
    cases b₁ with
    | true => exact add_isSome l₁
    | false =>
      have l₂ := hlen 1 (hex₁ rfl)
      obtain ⟨b₂, h₂, hex₂⟩ := hnext 2 l₂
      simp only [Bool.false_eq_true, if_false, h₂, some_bind]
      cases b₂ with
      | true => exact add_isSome l₂
      | false =>
        have l₃ := hlen 2 (hex₂ rfl)
        obtain ⟨b₃, h₃, hex₃⟩ := hnext 3 l₃
        simp only [Bool.false_eq_true, if_false, h₃, some_bind]
        cases b₃ with
        | true => exact add_isSome l₃
        | false =>
          obtain ⟨c₀, g₀, x₀⟩ := hex₀ rfl
          obtain ⟨c₁, g₁, x₁⟩ := hex₁ rfl
          obtain ⟨c₂, g₂, x₂⟩ := hex₂ rfl
          obtain ⟨c₃, g₃, x₃⟩ := hex₃ rfl
          exfalso
          match hp : p.after, hlen 3 (hex₃ rfl) with
          | a₀ :: a₁ :: a₂ :: a₃ :: r, _ =>
            rw [hp] at g₀ g₁ g₂ g₃
            cases g₀; cases g₁; cases g₂; cases g₃
            exact h _ _ _ _ _ hp ⟨x₀, x₁, x₂, x₃⟩

theorem hexValue_eq {n₃ n₂ n₁ n₀ : Nat} (h₂ : n₂ < 16) (h₁ : n₁ < 16) (h₀ : n₀ < 16)
    : (n₃ <<< 12) ||| (n₂ <<< 8) ||| (n₁ <<< 4) ||| n₀ = n₃ * 16 ^ 3 + n₂ * 16 ^ 2 + n₁ * 16 + n₀ := by
  have e₂ : n₃ <<< 12 ||| n₂ <<< 8 = (n₃ * 16 + n₂) <<< 8 := by
    rw [show n₃ <<< 12 = (n₃ * 16) <<< 8 by omega, ← Nat.shiftLeft_or_distrib,
      show n₃ * 16 = n₃ <<< 4 by omega, ← Nat.shiftLeft_add_eq_or_of_lt (by omega)]
  have e₁ : (n₃ * 16 + n₂) <<< 8 ||| n₁ <<< 4 = ((n₃ * 16 + n₂) * 16 + n₁) <<< 4 := by
    rw [show (n₃ * 16 + n₂) <<< 8 = ((n₃ * 16 + n₂) * 16) <<< 4 by omega, ← Nat.shiftLeft_or_distrib,
      show (n₃ * 16 + n₂) * 16 = (n₃ * 16 + n₂) <<< 4 by omega, ← Nat.shiftLeft_add_eq_or_of_lt (by omega)]
  rw [e₂, e₁, ← Nat.shiftLeft_add_eq_or_of_lt (by omega)]
  omega

theorem passAll_hex (p : CharPtr)
    : ∃ b, p.passAll [IsAsciiHexDigit, IsAsciiHexDigit, IsAsciiHexDigit, IsAsciiHexDigit] 0 = some b ∧
        (b = true ↔ ∃ c₃ c₂ c₁ c₀ r, p.after = c₃ :: c₂ :: c₁ :: c₀ :: r ∧ IsAsciiHexDigit c₃ ∧ IsAsciiHexDigit c₂ ∧
          IsAsciiHexDigit c₁ ∧ IsAsciiHexDigit c₀) := by
  obtain ⟨b, hb, hiff⟩ := passAll_eq (p := p)
    [IsAsciiHexDigit, IsAsciiHexDigit, IsAsciiHexDigit, IsAsciiHexDigit] (Nat.zero_le _)
  refine ⟨b, hb, hiff.trans ?_⟩
  rw [drop_zero]
  constructor
  . rintro ⟨_, r, hp, _ | ⟨h₃, _ | ⟨h₂, _ | ⟨h₁, _ | ⟨h₀, _ | _⟩⟩⟩⟩⟩
    exact ⟨_, _, _, _, r, hp, h₃, h₂, h₁, h₀⟩
  . rintro ⟨c₃, c₂, c₁, c₀, r, hp, h₃, h₂, h₁, h₀⟩
    exact ⟨[c₃, c₂, c₁, c₀], r, hp, .cons h₃ (.cons h₂ (.cons h₁ (.cons h₀ .nil)))⟩

theorem readUnicodeEscape_cases (p : CharPtr)
    : (∃ c₃ c₂ c₁ c₀ q n₃ n₂ n₁ n₀, p.Past [c₃, c₂, c₁, c₀] q ∧
        HexDigit c₃ n₃ ∧ HexDigit c₂ n₂ ∧ HexDigit c₁ n₁ ∧ HexDigit c₀ n₀ ∧
        (readUnicodeEscape p : Option ((CharT ⊕ Token D) × CharPtr)) =
          some (.inl (.ofNat 16 (n₃ * 16 ^ 3 + n₂ * 16 ^ 2 + n₁ * 16 + n₀)), q)) ∨
      (∀ c₃ c₂ c₁ c₀ r, p.after = c₃ :: c₂ :: c₁ :: c₀ :: r →
        ¬(IsAsciiHexDigit c₃ ∧ IsAsciiHexDigit c₂ ∧ IsAsciiHexDigit c₁ ∧ IsAsciiHexDigit c₀)) ∧
        ∃ report q, (readUnicodeEscape p : Option ((CharT ⊕ Token D) × CharPtr)) = some (.inr (.Error report), q) := by
  obtain ⟨b, hb, hiff⟩ := passAll_hex p
  rw [readUnicodeEscape, hb, some_bind]
  cases b with
  | true =>
    obtain ⟨c₃, c₂, c₁, c₀, r, hp, x₃, x₂, x₁, x₀⟩ := hiff.mp rfl
    obtain ⟨q, hq, _⟩ := RangedPtr.Past.exists_of_after (w := [c₃, c₂, c₁, c₀]) hp
    refine .inl ⟨c₃, c₂, c₁, c₀, q, _, _, _, _, hq, isAsciiHexDigit_iff.mp x₃, isAsciiHexDigit_iff.mp x₂,
      isAsciiHexDigit_iff.mp x₁, isAsciiHexDigit_iff.mp x₀, ?_⟩
    have hvalue := @hexValue_eq (AsciiAlphanumericToNumber c₃) _ _ _ (isAsciiHexDigit_iff.mp x₂).lt
      (isAsciiHexDigit_iff.mp x₁).lt (isAsciiHexDigit_iff.mp x₀).lt
    have hadd : p.add 4 = some q := hq.add
    simp only [some_bind, if_true, RangedPtr.get, hp, List.getElem?_cons_zero, List.getElem?_cons_succ, hadd, hvalue]
  | false =>
    have hbad : ∀ c₃ c₂ c₁ c₀ r, p.after = c₃ :: c₂ :: c₁ :: c₀ :: r →
        ¬(IsAsciiHexDigit c₃ ∧ IsAsciiHexDigit c₂ ∧ IsAsciiHexDigit c₁ ∧ IsAsciiHexDigit c₀) := by
      intro c₃ c₂ c₁ c₀ r hp hx
      exact Bool.noConfusion (hiff.mpr ⟨c₃, c₂, c₁, c₀, r, hp, hx⟩)
    refine .inr ⟨hbad, ?_⟩
    obtain ⟨q, hq⟩ := badUnicodeEscape_isSome hbad
    simp only [some_bind, Bool.false_eq_true, if_false, hq]
    exact ⟨_, _, rfl⟩

variable {q : CharPtr}

theorem readUnicodeEscape_complete
    (h₃ : HexDigit c₃ n₃) (h₂ : HexDigit c₂ n₂) (h₁ : HexDigit c₁ n₁) (h₀ : HexDigit c₀ n₀)
    (hp : p.Past [c₃, c₂, c₁, c₀] q)
    : (readUnicodeEscape p : Option ((CharT ⊕ Token D) × CharPtr)) =
        some (.inl (.ofNat 16 (n₃ * 16 ^ 3 + n₂ * 16 ^ 2 + n₁ * 16 + n₀)), q) := by
  rcases @readUnicodeEscape_cases D p with ⟨d₃, d₂, d₁, d₀, q', m₃, m₂, m₁, m₀, hq, g₃, g₂, g₁, g₀, hrun⟩ | ⟨hbad, _⟩
  . have hsame := hp.after.symm.trans hq.after
    simp only [cons_append, List.cons.injEq] at hsame
    obtain ⟨rfl, rfl, rfl, rfl, _⟩ := hsame
    rw [hrun, hq.unique hp, ← h₃.eq, ← h₂.eq, ← h₁.eq, ← h₀.eq, g₃.eq, g₂.eq, g₁.eq, g₀.eq]
  . exact absurd ⟨h₃.isAsciiHexDigit, h₂.isAsciiHexDigit, h₁.isAsciiHexDigit, h₀.isAsciiHexDigit⟩
      (hbad _ _ _ _ _ hp.after)

theorem readEscape_letter (h : Escape [e] c) (hp : p.Past [e] q)
    : (readEscape p : Option ((CharT ⊕ Token D) × CharPtr)) = some (.inl c, q) := by
  rw [readEscape, deref_eq hp.head, hp.inc]
  cases h <;> rfl

theorem readEscape_complete (h : Escape e c) (hp : p.Past e q)
    : (readEscape p : Option ((CharT ⊕ Token D) × CharPtr)) = some (.inl c, q) := by
  cases h with
  | unicode h₃ h₂ h₁ h₀ =>
    obtain ⟨m, hu, hdigits⟩ := hp.exists_cons
    rw [readEscape, deref_eq hp.head, hu.inc]
    exact readUnicodeEscape_complete h₃ h₂ h₁ h₀ hdigits
  | _ => exact readEscape_letter (by constructor) hp

theorem readEscape_cases (p : CharPtr) (h : p.after ≠ [])
    : (∃ e c q, Escape e c ∧ p.Past e q ∧ (readEscape p : Option ((CharT ⊕ Token D) × CharPtr)) = some (.inl c, q)) ∨
      ∃ report q, (readEscape p : Option ((CharT ⊕ Token D) × CharPtr)) = some (.inr (.Error report), q) := by
  match hp : p.after, h with
  | x :: r, _ =>
    obtain ⟨m, hm, _⟩ := RangedPtr.Past.exists_of_after (w := [x]) hp
    by_cases hletter : ∃ c, Escape [x] c
    . obtain ⟨c, hc⟩ := hletter
      exact .inl ⟨[x], c, m, hc, hm, readEscape_letter hc hm⟩
    have hnot : ∀ c, ¬Escape [x] c := by
      intro c hc
      exact hletter ⟨c, hc⟩
    by_cases hu : x = unit 'u'
    . subst hu
      have hrun : (readEscape p : Option ((CharT ⊕ Token D) × CharPtr)) = readUnicodeEscape m := by
        rw [readEscape, deref_eq hp, hm.inc]
        rfl
      rw [hrun]
      rcases @readUnicodeEscape_cases D m with
        ⟨c₃, c₂, c₁, c₀, q, n₃, n₂, n₁, n₀, hq, h₃, h₂, h₁, h₀, hread⟩ | ⟨_, report, q, hread⟩
      . exact .inl ⟨_, _, _, .unicode h₃ h₂ h₁ h₀, hm.trans hq, hread⟩
      . exact .inr ⟨report, q, hread⟩
    . apply Or.inr
      rw [readEscape, deref_eq hp, hm.inc]
      simp only [some_bind]
      rw [if_neg, if_neg, if_neg, if_neg, if_neg, if_neg, if_neg, if_neg, if_neg hu, hm.dec, some_bind]
      . exact ⟨_, _, rfl⟩
      all_goals
        rintro rfl
        exact hnot _ (by constructor)

/- Strings. -/

theorem isUnescaped_iff : isUnescaped c = true ↔ 0x20 ≤ c.toNat ∧ c ≠ '"' ∧ c ≠ '\\' := by
  simp only [isUnescaped, Bool.not_eq_true', Bool.or_eq_false_iff, decide_eq_false_iff_not, ne_eq]
  constructor
  . rintro ⟨⟨hquote, hbackslash⟩, hctrl⟩
    exact ⟨by omega, hquote, hbackslash⟩
  . rintro ⟨hctrl, hquote, hbackslash⟩
    exact ⟨⟨hquote, hbackslash⟩, by omega⟩

theorem StringBody.append_unescaped (hplain : ∀ c ∈ plain, isUnescaped c = true)
    (h : StringBody w s) : StringBody (plain ++ w) (plain ++ s) := by
  induction plain with
  | nil => exact h
  | cons c plain ih =>
    obtain ⟨hctrl, hquote, hbackslash⟩ := isUnescaped_iff.mp (hplain c mem_cons_self)
    exact .unescaped hctrl hquote hbackslash (ih fun d hd => hplain d (mem_cons_of_mem _ hd))

def AtEscape (w s : List CharT) : Prop :=
  w = [] ∧ s = [] ∨ ∃ e c v t, Escape e c ∧ StringBody v t ∧ w = unit '\\' :: (e ++ v) ∧ s = c :: t

theorem StringBody.span (h : StringBody w s)
    : ∃ plain w' s', w = plain ++ w' ∧ s = plain ++ s' ∧ (∀ c ∈ plain, isUnescaped c = true) ∧ StringBody w' s' ∧
        AtEscape w' s' := by
  induction h with
  | nil => exact ⟨[], [], [], rfl, rfl, by simp only [not_mem_nil, false_imp_iff, implies_true], .nil, .inl ⟨rfl, rfl⟩⟩
  | @unescaped c w s hctrl hquote hbackslash _ ih =>
    obtain ⟨plain, w', s', rfl, rfl, hplain, hbody, hend⟩ := ih
    refine ⟨c :: plain, w', s', rfl, rfl, ?_, hbody, hend⟩
    intro d hd
    rcases mem_cons.mp hd with rfl | hd
    . exact isUnescaped_iff.mpr ⟨hctrl, hquote, hbackslash⟩
    . exact hplain d hd
  | @escape e c w s hescape hbody _ =>
    exact ⟨[], _, _, rfl, rfl, by simp only [not_mem_nil, false_imp_iff, implies_true],
      .escape hescape hbody, .inr ⟨e, c, w, s, hescape, hbody, rfl, rfl⟩⟩

theorem Escape.ne_nil (h : Escape e c) : e ≠ [] := by
  cases h <;> exact cons_ne_nil _ _

theorem skipWhile_unescaped (hp : p.Past plain q)
    (hq : q.after = w ++ unit '"' :: r) (hplain : ∀ c ∈ plain, isUnescaped c = true)
    (hw : w = [] ∨ ∃ v, w = unit '\\' :: v) : p.skipWhile isUnescaped = q := by
  apply hp.skipWhile hplain
  intro x hx
  rw [hq] at hx
  rcases hw with rfl | ⟨v, rfl⟩
  . cases hx
    rfl
  . cases hx
    rfl

theorem isEnd_eq_false_of_past (h : p.Past w q) (hw : w ≠ []) : p.isEnd = false := by
  cases w with
  | nil => exact absurd rfl hw
  | cons x w => exact isEnd_eq_false h.head

theorem readEscapedString_complete {buffer w s : List CharT} {start current q : CharPtr}
    (hrounds : current.after.length < rounds) (hp : current.Past (w ++ [unit '"']) q) (hbody : AtEscape w s)
    : (readEscapedString rounds buffer start current : Option (Token D × CharPtr)) =
        some (.String (buffer ++ current.since start ++ s), q) := by
  induction rounds generalizing buffer w s start current with
  | zero => omega
  | succ rounds ih =>
    rw [readEscapedString]
    rcases hbody with ⟨rfl, rfl⟩ | ⟨e, c, v, t, hescape, hbody, rfl, rfl⟩
    . rw [nil_append] at hp
      rw [isEnd_eq_false hp.head, deref_eq hp.head, hp.inc, append_nil]
      rfl
    obtain ⟨plain, v', t', rfl, rfl, hplain, _, hend⟩ := hbody.span
    simp only [cons_append, append_assoc] at hp
    obtain ⟨next, hnext, hrest⟩ := hp.exists_cons
    obtain ⟨start', hstart, hrest⟩ := hrest.exists_split
    obtain ⟨current', hcurrent, hlast⟩ := hrest.exists_split
    have hskip := skipWhile_unescaped hcurrent (hlast.after.trans (append_assoc _ _ _)) hplain
      (hend.imp (fun h => h.1) fun ⟨e', _, v'', _, _, _, hv, _⟩ => ⟨e' ++ v'', hv⟩)
    have hlt : current'.after.length < rounds := by
      have h₁ := hnext.length
      have h₂ := hstart.length
      have h₃ := hcurrent.length
      rw [length_singleton] at h₁
      omega
    have hquote : unit '\\' ≠ unit '"' := by decide
    rw [isEnd_eq_false hp.head, deref_eq hp.head, hnext.inc]
    simp only [Bool.false_eq_true, if_false, some_bind, hquote, ne_eq, not_true_eq_false,
      isEnd_eq_false_of_past hstart hescape.ne_nil, readEscape_complete hescape hstart, hskip,
      isEnd_eq_false_of_past hlast (append_ne_nil_of_right_ne_nil _ (cons_ne_nil _ _))]
    rw [ih hlt hlast hend, hcurrent.since]
    simp only [append_assoc, cons_append, nil_append]

theorem readEscapedString_cases {buffer : List CharT} {start current : CharPtr}
    (hrounds : current.after.length < rounds)
    : (∃ w s q, StringBody w s ∧ current.Past (w ++ [unit '"']) q ∧
        (readEscapedString rounds buffer start current : Option (Token D × CharPtr)) =
          some (.String (buffer ++ current.since start ++ s), q)) ∨
      ∃ report q, (readEscapedString rounds buffer start current : Option (Token D × CharPtr)) =
        some (.Error report, q) := by
  induction rounds generalizing buffer start current with
  | zero => omega
  | succ rounds ih =>
    rw [readEscapedString]
    match hp : current.after with
    | [] =>
      rw [isEnd_iff.mpr hp]
      exact .inr ⟨_, _, rfl⟩
    | x :: r =>
      obtain ⟨next, hnext, hnextAfter⟩ := RangedPtr.Past.exists_of_after (w := [x]) hp
      rw [isEnd_eq_false hp, deref_eq hp, hnext.inc]
      simp only [Bool.false_eq_true, if_false, some_bind]
      by_cases hquote : x = unit '"'
      . refine .inl ⟨[], [], next, .nil, hquote ▸ hnext, ?_⟩
        rw [if_pos hquote, append_nil]
      rw [if_neg hquote]
      by_cases hbackslash : x = unit '\\'
      . subst hbackslash
        rw [if_neg (not_not_intro rfl)]
        by_cases hend : next.isEnd = true
        . rw [if_pos hend]
          exact .inr ⟨_, _, rfl⟩
        rw [if_neg hend]
        rcases @readEscape_cases D next (fun h => hend (isEnd_iff.mpr h)) with
          ⟨e, c, start', hescape, hstart, hread⟩ | ⟨report, q, hread⟩
        . simp only [hread, some_bind]
          have hskip := start'.skipWhile_past isUnescaped
          split
          . exact .inr ⟨_, _, rfl⟩
          have hlt : (start'.skipWhile isUnescaped).after.length < rounds := by
            have h₁ := hnext.length
            have h₂ := hstart.length
            have h₃ := hskip.length
            rw [length_singleton] at h₁
            omega
          rcases @ih (buffer ++ current.since start ++ [c]) start' _ hlt with
            ⟨w, s, q, hbody, hlast, hrun⟩ | herror
          . refine .inl ⟨unit '\\' :: (e ++ (start'.after.takeWhile isUnescaped ++ w)), _, q,
              .escape hescape (.append_unescaped ?_ hbody), ?_, ?_⟩
            . intro y hy
              exact mem_takeWhile_imp hy
            . have := hnext.trans (hstart.trans (hskip.trans hlast))
              simpa only [append_assoc, cons_append, nil_append] using this
            . rw [hrun, hskip.since]
              simp only [append_assoc, cons_append, nil_append]
          . exact .inr herror
        . rw [hread]
          exact .inr ⟨report, q, rfl⟩
      . rw [if_pos hbackslash, hnext.dec]
        exact .inr ⟨_, _, rfl⟩

theorem readString_cases (hp : p.after = unit '"' :: r)
    : (∃ w s q, StringText w s ∧ p.Past w q ∧ (readString p : Option (Token D × CharPtr)) = some (.String s, q)) ∨
      ∃ report q, (readString p : Option (Token D × CharPtr)) = some (.Error report, q) := by
  obtain ⟨start, hstart, hstartAfter⟩ := RangedPtr.Past.exists_of_after (w := [unit '"']) hp
  rw [readString, hstart.inc]
  simp only [some_bind]
  split
  . exact .inr ⟨_, _, rfl⟩
  have hskip := start.skipWhile_past isUnescaped
  have hplain : ∀ y ∈ start.after.takeWhile isUnescaped, isUnescaped y = true := by
    intro y hy
    exact mem_takeWhile_imp hy
  have hslow := @readEscapedString_cases D _ [] start (start.skipWhile isUnescaped) (Nat.lt_succ_self _)
  replace hslow : (∃ w s q, StringText w s ∧ p.Past w q ∧
      (readEscapedString ((start.skipWhile isUnescaped).remaining + 1) [] start (start.skipWhile isUnescaped) :
        Option (Token D × CharPtr)) = some (.String s, q)) ∨ ∃ report q, (readEscapedString ((start.skipWhile isUnescaped).remaining + 1) []
          start (start.skipWhile isUnescaped) : Option (Token D × CharPtr)) = some (.Error report, q) := by
    refine hslow.imp ?_ id
    rintro ⟨w, s, q, hbody, hpast, hrun⟩
    refine ⟨_, _, q, .quoted (.append_unescaped hplain hbody), ?_, ?_⟩
    . have := hstart.trans (hskip.trans hpast)
      simpa only [append_assoc, cons_append, nil_append] using this
    . rw [remaining, hrun, hskip.since, nil_append]
  split
  . exact hslow
  next hend =>
  obtain ⟨x, xs, hx⟩ : ∃ x xs, (start.skipWhile isUnescaped).after = x :: xs := by
    cases h : (start.skipWhile isUnescaped).after with
    | nil => exact absurd (isEnd_iff.mpr h) hend
    | cons x xs => exact ⟨x, xs, rfl⟩
  obtain ⟨next, hnext, _⟩ := RangedPtr.Past.exists_of_after (w := [x]) hx
  rw [deref_eq hx, some_bind]
  by_cases hquote : x = unit '"'
  . subst hquote
    rw [if_pos rfl, hnext.inc]
    refine .inl ⟨_, _, next, .quoted (.append_unescaped hplain .nil), ?_, ?_⟩
    . have := hstart.trans (hskip.trans hnext)
      simpa only [append_assoc, cons_append, nil_append, append_nil] using this
    . rw [hskip.since, append_nil]
      rfl
  . rw [if_neg hquote]
    by_cases hbackslash : x = unit '\\'
    . rw [if_pos hbackslash]
      exact hslow
    . rw [if_neg hbackslash]
      exact .inr ⟨_, _, rfl⟩

theorem readString_complete (h : StringText w s) (hp : p.Past w q)
    : (readString p : Option (Token D × CharPtr)) = some (.String s, q) := by
  cases h with
  | quoted hbody =>
    obtain ⟨plain, w', s', rfl, rfl, hplain, _, hend⟩ := hbody.span
    rw [append_assoc] at hp
    obtain ⟨start, hstart, hrest⟩ := hp.exists_cons
    obtain ⟨current, hcurrent, hlast⟩ := hrest.exists_split
    have hskip := skipWhile_unescaped hcurrent (hlast.after.trans (append_assoc _ _ _)) hplain
      (hend.imp (fun h => h.1) fun ⟨e', _, v'', _, _, _, hv, _⟩ => ⟨e' ++ v'', hv⟩)
    have hslow := @readEscapedString_complete D _ [] w' s' start current q (Nat.lt_succ_self _) hlast hend
    rw [readString, hstart.inc]
    simp only [some_bind, isEnd_eq_false_of_past hrest
      (append_ne_nil_of_right_ne_nil _ (append_ne_nil_of_right_ne_nil _ (cons_ne_nil _ _))),
      Bool.false_eq_true, if_false, hskip, isEnd_eq_false_of_past hlast
      (append_ne_nil_of_right_ne_nil _ (cons_ne_nil _ _))]
    rcases hend with ⟨rfl, rfl⟩ | ⟨e, c, v, t, _, _, rfl, rfl⟩
    . rw [nil_append] at hlast
      rw [deref_eq hlast.head, hlast.inc, some_bind, if_pos rfl, hcurrent.since, append_nil]
      rfl
    . have hquote : unit '\\' ≠ unit '"' := by decide
      rw [deref_eq hlast.head, some_bind, if_neg hquote, if_pos rfl, remaining, hslow, hcurrent.since, nil_append]

end SpiderMonkey.JSON
