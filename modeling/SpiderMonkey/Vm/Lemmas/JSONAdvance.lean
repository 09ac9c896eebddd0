import SpiderMonkey.Vm.Lemmas.JSONNumber

/-!
This module contains that `advance` and its relatives read, after whitespace, exactly the tokens that may stand there,
and what the open arrays and objects still demand of the text, which changes from token to token.
-/

open List RangedPtr

namespace SpiderMonkey.JSON

variable {D : Type}

def fixedTokens : List (Token D × List CharT) :=
  [(.True, ['t', 'r', 'u', 'e']), (.False, ['f', 'a', 'l', 's', 'e']), (.Null, ['n', 'u', 'l', 'l']),
    (.ArrayOpen, ['[']), (.ArrayClose, [']']), (.ObjectOpen, ['\x7b']), (.ObjectClose, ['\x7d']), (.Comma, [',']),
    (.Colon, [':'])]

inductive Lexeme (nearest : Nearest D) : Token D → List CharT → Prop where
  | string {w s : List CharT} : StringText w s → Lexeme nearest (.String s) w
  | number {w : List CharT} {d : D} : NumberText nearest w d → Lexeme nearest (.Number d) w
  | fixed {t : Token D} {w : List CharT} : (t, w) ∈ fixedTokens → Lexeme nearest t w

def Token.Follow (t : Token D) (r : List CharT) : Prop := ∀ d, t = .Number d → Stop r

theorem NumberText.head (h : NumberText nearest w d)
    : ∃ c v, w = c :: v ∧ (c = unit '-' ∨ IsAsciiDigit c = true) := by
  cases h with
  | positive ℓ =>
    obtain ⟨c, v, hcons⟩ := exists_cons_of_ne_nil ℓ.integer_ne
    refine ⟨c, _, by rw [DecimalLiteral.text, hcons]; rfl, .inr (isAsciiDigit_iff.mpr (ℓ.integer_all c ?_))⟩
    rw [hcons]
    exact mem_cons_self
  | negative ℓ => exact ⟨unit '-', _, rfl, .inl rfl⟩

theorem StringText.head (h : StringText w s) : ∃ v, w = unit '"' :: v := by
  cases h
  exact ⟨_, rfl⟩

theorem fixed_head (h : (t, c :: v) ∈ fixedTokens)
    : c ≠ unit '"' ∧ ¬(c = unit '-' ∨ IsAsciiDigit c = true) ∧ IsJSONWhitespace c = false := by
  simp only [fixedTokens, mem_cons, Prod.mk.injEq, List.cons.injEq, not_mem_nil, or_false] at h
  rcases h with ⟨_, rfl, _⟩ | ⟨_, rfl, _⟩ | ⟨_, rfl, _⟩ | ⟨_, rfl, _⟩ | ⟨_, rfl, _⟩ | ⟨_, rfl, _⟩ | ⟨_, rfl, _⟩ |
    ⟨_, rfl, _⟩ | ⟨_, rfl, _⟩ <;> decide

theorem fixed_unique (h : (t, c :: v) ∈ fixedTokens) (h' : (t', c :: w) ∈ fixedTokens) : t' = t ∧ w = v := by
  simp only [fixedTokens, mem_cons, Prod.mk.injEq, List.cons.injEq, not_mem_nil, or_false] at h
  rcases h with ⟨rfl, rfl, rfl⟩ | ⟨rfl, rfl, rfl⟩ | ⟨rfl, rfl, rfl⟩ | ⟨rfl, rfl, rfl⟩ | ⟨rfl, rfl, rfl⟩ |
    ⟨rfl, rfl, rfl⟩ | ⟨rfl, rfl, rfl⟩ | ⟨rfl, rfl, rfl⟩ | ⟨rfl, rfl, rfl⟩ <;>
    simpa [fixedTokens, unit] using h'

section

variable {nearest : Nearest D}

variable {c : CharT} {t : Token D} {w : List CharT}

theorem Lexeme.fixed_of_head (hmem : (t, c :: v) ∈ fixedTokens) (h : Lexeme nearest t' (c :: w)) : t' = t ∧ w = v := by
  obtain ⟨hquote, hnumber, _⟩ := fixed_head hmem
  generalize hu : c :: w = u at h
  cases h with
  | string htext =>
    obtain ⟨v, rfl⟩ := htext.head
    cases hu
    exact absurd rfl hquote
  | number htext =>
    obtain ⟨c, v, rfl, hc⟩ := htext.head
    cases hu
    exact absurd hc hnumber
  | fixed hmem' =>
    subst hu
    exact fixed_unique hmem hmem'

theorem Lexeme.string_of_head (h : Lexeme nearest t (unit '"' :: w))
    : ∃ s, t = .String s ∧ StringText (unit '"' :: w) s := by
  generalize hu : unit '"' :: w = u at h
  cases h with
  | string htext => exact ⟨_, rfl, htext⟩
  | number htext =>
    obtain ⟨c, v, rfl, hc⟩ := htext.head
    cases hu
    exact absurd hc (by decide)
  | fixed hmem =>
    subst hu
    exact absurd rfl (fixed_head hmem).1

theorem Lexeme.number_of_head (hc : c = unit '-' ∨ IsAsciiDigit c = true)
    (h : Lexeme nearest t (c :: w)) : ∃ d, t = .Number d ∧ NumberText nearest (c :: w) d := by
  generalize hu : c :: w = u at h
  cases h with
  | string htext =>
    obtain ⟨v, rfl⟩ := htext.head
    cases hu
    exact absurd hc (by decide)
  | number htext => exact ⟨_, rfl, htext⟩
  | fixed hmem =>
    subst hu
    exact absurd hc (fixed_head hmem).2.1

theorem Lexeme.ne_nil (h : Lexeme nearest t w) : w ≠ [] := by
  cases h with
  | string htext =>
    obtain ⟨v, rfl⟩ := htext.head
    exact cons_ne_nil _ _
  | number htext =>
    obtain ⟨c, v, rfl, _⟩ := htext.head
    exact cons_ne_nil _ _
  | fixed hmem =>
    rintro rfl
    simp [fixedTokens] at hmem

structure ReadsFrom (nearest : Nearest D) (c : CharT) (read : CharPtr → Option (Token D × CharPtr)) : Prop where
  reads : ∀ (p : CharPtr) (r : List CharT), p.after = c :: r →
    (∃ t w q, Lexeme nearest t w ∧ p.Past w q ∧ read p = some (t, q)) ∨ ∃ report q, read p = some (.Error report, q)
  complete : ∀ (p q : CharPtr) (t : Token D) (w : List CharT), Lexeme nearest t (c :: w) → p.Past (c :: w) q →
    t.Follow q.after → read p = some (t, q)

theorem readString_from : ReadsFrom nearest (unit '"') readString where
  reads p r hp := by
    refine (readString_cases hp).imp ?_ id
    rintro ⟨w, s, q, htext, hpast, hrun⟩
    exact ⟨_, w, q, .string htext, hpast, hrun⟩
  complete p q t w h hp _ := by
    obtain ⟨s, rfl, htext⟩ := h.string_of_head
    exact readString_complete htext hp

theorem readNumber_from (hconv : conv.Correct nearest)
    (hc : c = unit '-' ∨ IsAsciiDigit c = true) : ReadsFrom nearest c (readNumber conv) where
  reads p r hp := by
    refine (readNumber_cases hconv hp).imp ?_ id
    rintro ⟨w, d, q, htext, hpast, hrun⟩
    exact ⟨_, w, q, .number htext, hpast, hrun⟩
  complete p q t w h hp hfollow := by
    obtain ⟨d, rfl, htext⟩ := h.number_of_head hc
    exact readNumber_complete hconv htext hp (hfollow d rfl)

theorem readUnit_from (h : (t, [c]) ∈ fixedTokens) : ReadsFrom nearest c (readUnit t) where
  reads p r hp := by
    obtain ⟨q, hq, _⟩ := RangedPtr.Past.exists_of_after (w := [c]) hp
    exact .inl ⟨t, [c], q, .fixed h, hq, by rw [readUnit, hq.inc]; rfl⟩
  complete p q t' w hlex hp _ := by
    obtain ⟨rfl, rfl⟩ := hlex.fixed_of_head h
    rw [readUnit, hp.inc]
    rfl

theorem forall₂_eq
    : List.Forall₂ (fun test x => test x = true) (v.map fun c => fun c' : CharT => decide (c' = c)) w ↔ w = v := by
  rw [forall₂_map_left_iff]
  simp only [decide_eq_true_eq]
  constructor
  . intro h
    have hflip : List.Forall₂ (fun a b => a = b) w v := h.flip
    rwa [forall₂_eq_eq_eq] at hflip
  . rintro rfl
    exact forall₂_same.mpr fun x _ => rfl

theorem readKeyword_from {rest : List CharT} (h : (t, c :: rest) ∈ fixedTokens)
    : ReadsFrom nearest c (readKeyword rest t) where
  reads p r hp := by
    obtain ⟨b, hb, hiff⟩ := passAll_eq (p := p) (rest.map fun c => fun c' : CharT => decide (c' = c))
      (i := 1) (by rw [hp]; exact Nat.succ_le_succ (Nat.zero_le _))
    rw [readKeyword, hb, some_bind]
    split
    . next hpass =>
      obtain ⟨w, r', hdrop, hw⟩ := hiff.mp hpass
      cases forall₂_eq.mp hw
      rw [hp, drop_succ_cons, drop_zero] at hdrop
      subst hdrop
      obtain ⟨q, hq, _⟩ := RangedPtr.Past.exists_of_after (w := c :: rest) hp
      have hadd : p.add (rest.length + 1) = some q := hq.add
      exact .inl ⟨t, c :: rest, q, .fixed h, hq, by rw [hadd]; rfl⟩
    . exact .inr ⟨_, _, rfl⟩
  complete p q t' w hlex hp _ := by
    obtain ⟨rfl, rfl⟩ := hlex.fixed_of_head h
    obtain ⟨b, hb, hiff⟩ := passAll_eq (p := p) (w.map fun c => fun c' : CharT => decide (c' = c))
      (i := 1) (by rw [hp.head]; exact Nat.succ_le_succ (Nat.zero_le _))
    have hpass : b = true := by
      refine hiff.mpr ⟨w, q.after, ?_, forall₂_eq.mpr rfl⟩
      rw [hp.head, drop_succ_cons, drop_zero]
    have hadd : p.add (w.length + 1) = some q := hp.add
    rw [readKeyword, hb, some_bind, if_pos hpass, hadd]
    rfl

/- Whitespace and the choice. -/

abbrev Cases (D : Type) := List (CharT × (CharPtr → Option (Token D × CharPtr)))

def StartsIn (cases : Cases D) (w : List CharT) : Prop := ∃ c v, w = c :: v ∧ c ∈ cases.map Prod.fst

structure Cases.Correct (nearest : Nearest D) (cases : Cases D) : Prop where
  reads : ∀ c read, (c, read) ∈ cases → ReadsFrom nearest c read
  token : ∀ c read, (c, read) ∈ cases → IsJSONWhitespace c = false

variable {cases : Cases D} {onEnd otherwise : String}

theorem find?_cases {cases : Cases D} {read : CharPtr → Option (Token D × CharPtr)}
    (h : (c, read) ∈ cases) : ∃ read', (c, read') ∈ cases ∧ (cases.find? fun x => x.1 = c) = some (c, read') := by
  cases hfind : cases.find? fun x => x.1 = c with
  | none =>
    have := List.find?_eq_none.mp hfind (c, read) h
    simp only [decide_true, not_true_eq_false] at this
  | some x =>
    obtain ⟨c', read'⟩ := x
    have hc := List.find?_some hfind
    rw [decide_eq_true_eq] at hc
    subst hc
    exact ⟨read', mem_of_find?_eq_some hfind, rfl⟩

theorem advanceTo_reads (hcases : cases.Correct nearest) (p : CharPtr)
    : (∃ a t w q, Whitespace a ∧ Lexeme nearest t w ∧ StartsIn cases w ∧ p.Past (a ++ w) q ∧
        advanceTo onEnd cases otherwise p = some (t, q)) ∨
      ∃ report q, advanceTo onEnd cases otherwise p = some (.Error report, q) := by
  have hskip := p.skipWhile_past IsJSONWhitespace
  have hws : Whitespace (p.after.takeWhile IsJSONWhitespace) :=
    whitespace_iff.mpr fun c hc => mem_takeWhile_imp hc
  rw [advanceTo]
  generalize p.skipWhile IsJSONWhitespace = m at hskip
  match hm : m.after with
  | [] =>
    rw [isEnd_iff.mpr hm]
    exact .inr ⟨_, _, rfl⟩
  | c :: r =>
    rw [isEnd_eq_false hm, deref_eq hm]
    simp only [Bool.false_eq_true, if_false, some_bind]
    cases hfind : cases.find? fun x => x.1 = c with
    | none => exact .inr ⟨_, _, rfl⟩
    | some x =>
      obtain ⟨c', read⟩ := x
      have hc := List.find?_some hfind
      rw [decide_eq_true_eq] at hc
      subst hc
      have hmem := mem_of_find?_eq_some hfind
      rcases (hcases.reads c' read hmem).reads m r hm with ⟨t, w, q, hlex, hpast, hrun⟩ | herror
      . obtain ⟨d, v, rfl⟩ := exists_cons_of_ne_nil hlex.ne_nil
        have hd : d = c' := (List.cons.inj (hpast.head.symm.trans hm)).1
        subst hd
        exact .inl ⟨_, t, d :: v, q, hws, hlex, ⟨d, v, rfl, mem_map_of_mem hmem⟩, hskip.trans hpast, hrun⟩
      . exact .inr herror

theorem advanceTo_complete (hcases : cases.Correct nearest)
    (ha : Whitespace a) (h : Lexeme nearest t w) (hw : StartsIn cases w) (hp : p.Past (a ++ w) q)
    (hfollow : t.Follow q.after) : advanceTo onEnd cases otherwise p = some (t, q) := by
  obtain ⟨c, v, rfl, hmem⟩ := hw
  obtain ⟨⟨c, read⟩, hread, hc⟩ := mem_map.mp hmem
  cases hc
  obtain ⟨m, hm, hq⟩ := hp.exists_split
  have hskip : p.skipWhile IsJSONWhitespace = m := by
    apply hm.skipWhile (whitespace_iff.mp ha)
    intro d hd
    rw [hq.head] at hd
    cases hd
    exact hcases.token c read hread
  obtain ⟨read', hmem', hfind⟩ := find?_cases hread
  rw [advanceTo, hskip, isEnd_eq_false hq.head, deref_eq hq.head]
  simp only [Bool.false_eq_true, if_false, some_bind, hfind]
  exact (hcases.reads c read' hmem').complete m q t v h hq hfollow

-- `read` reads the allowed tokens after whitespace. Whatever is asked of a token and of the text after it holds of
-- what is read exactly when it holds of some division of the text.
def Exact (nearest : Nearest D) (allowed : Token D → Prop) (read : CharPtr → Option (Token D × CharPtr)) : Prop :=
  ∀ p, ∃ t q, read p = some (t, q) ∧
    ((∃ report, t = .Error report) ∨ allowed t ∧ ∃ a w, Whitespace a ∧ Lexeme nearest t w ∧ p.Past (a ++ w) q) ∧
    ∀ accepts : Token D → List CharT → Prop, (∀ report r, ¬accepts (.Error report) r) →
      (∀ t r, accepts t r → t.Follow r) →
      ((∃ a t w r, p.after = a ++ (w ++ r) ∧ Whitespace a ∧ Lexeme nearest t w ∧ allowed t ∧ accepts t r) ↔
        accepts t q.after)

theorem advanceTo_exact {allowed : Token D → Prop} (hcases : cases.Correct nearest)
    (hallowed : ∀ t w, Lexeme nearest t w → (allowed t ↔ StartsIn cases w))
    : Exact nearest allowed (advanceTo onEnd cases otherwise) := by
  intro p
  have hforward : ∀ t₀ q₀, advanceTo onEnd cases otherwise p = some (t₀, q₀) →
      ∀ accepts : Token D → List CharT → Prop, (∀ t r, accepts t r → t.Follow r) →
      (∃ a t w r, p.after = a ++ (w ++ r) ∧ Whitespace a ∧ Lexeme nearest t w ∧ allowed t ∧ accepts t r) →
      accepts t₀ q₀.after := by
    rintro t₀ q₀ hrun accepts hfollow ⟨a, t, w, r, hp, ha, hlex, hstarts, hacc⟩
    obtain ⟨q, hq, hafter⟩ := RangedPtr.Past.exists_of_after (hp.trans (append_assoc a w r).symm)
    have hrun' : advanceTo onEnd cases otherwise p = some (t, q) :=
      advanceTo_complete hcases ha hlex ((hallowed t w hlex).mp hstarts) hq (by rw [hafter]; exact hfollow t r hacc)
    rw [hrun] at hrun'
    cases hrun'
    rw [hafter]
    exact hacc
  rcases @advanceTo_reads D nearest cases onEnd otherwise hcases p with
    ⟨a, t, w, q, ha, hlex, hstarts, hpast, hrun⟩ | ⟨report, q, hrun⟩
  . have hallow := (hallowed t w hlex).mpr hstarts
    refine ⟨t, q, hrun, .inr ⟨hallow, a, w, ha, hlex, hpast⟩, ?_⟩
    intro accepts herror hfollow
    refine ⟨hforward t q hrun accepts hfollow, ?_⟩
    intro hacc
    exact ⟨a, t, w, q.after, hpast.after.trans (append_assoc _ _ _), ha, hlex, hallow, hacc⟩
  . refine ⟨.Error report, q, hrun, .inl ⟨report, rfl⟩, ?_⟩
    intro accepts herror hfollow
    refine ⟨hforward _ q hrun accepts hfollow, ?_⟩
    intro hacc
    exact absurd hacc (herror report q.after)

/- The places where a token may stand. -/

theorem Cases.Correct.nil : Cases.Correct nearest ([] : Cases D) where
  reads _ _ h := by cases h
  token _ _ h := by cases h

theorem Cases.Correct.cons {read : CharPtr → Option (Token D × CharPtr)}
    (hread : ReadsFrom nearest c read) (hc : IsJSONWhitespace c = false) (h : cases.Correct nearest)
    : Cases.Correct nearest ((c, read) :: cases) where
  reads c' read' hmem := by
    rcases mem_cons.mp hmem with heq | hmem
    . cases heq
      exact hread
    . exact h.reads c' read' hmem
  token c' read' hmem := by
    rcases mem_cons.mp hmem with heq | hmem
    . cases heq
      exact hc
    . exact h.token c' read' hmem

theorem Cases.Correct.fixed (hmem : (t, [c]) ∈ fixedTokens) (h : cases.Correct nearest)
    : Cases.Correct nearest ((c, readUnit t) :: cases) :=
  .cons (readUnit_from hmem) (fixed_head hmem).2.2 h

theorem Cases.Correct.string (h : cases.Correct nearest)
    : Cases.Correct nearest ((unit '"', readString) :: cases) :=
  .cons readString_from rfl h

theorem fixed_text (h : (t, v) ∈ fixedTokens) (h' : (t, w) ∈ fixedTokens)
    : w = v := by
  simp only [fixedTokens, mem_cons, Prod.mk.injEq, not_mem_nil, or_false] at h
  rcases h with ⟨rfl, rfl⟩ | ⟨rfl, rfl⟩ | ⟨rfl, rfl⟩ | ⟨rfl, rfl⟩ | ⟨rfl, rfl⟩ | ⟨rfl, rfl⟩ | ⟨rfl, rfl⟩ |
    ⟨rfl, rfl⟩ | ⟨rfl, rfl⟩ <;> simpa [fixedTokens] using h'

theorem Lexeme.text_of_fixed (hmem : (t, v) ∈ fixedTokens) (h : Lexeme nearest t w) : w = v := by
  cases h with
  | string _ => simp [fixedTokens] at hmem
  | number _ => simp [fixedTokens] at hmem
  | fixed hmem' => exact fixed_text hmem hmem'

theorem startsIn_unit (hmem : (t, [c]) ∈ fixedTokens)
    (h : Lexeme nearest t' w) : t' = t ∨ StartsIn cases w ↔ StartsIn ((c, readUnit t) :: cases) w := by
  constructor
  . rintro (rfl | ⟨c', v, rfl, hread⟩)
    . rw [h.text_of_fixed hmem]
      exact ⟨c, [], rfl, mem_cons_self⟩
    . exact ⟨c', v, rfl, mem_cons_of_mem _ hread⟩
  rintro ⟨c', v, rfl, hread⟩
  rcases mem_cons.mp hread with rfl | hread
  . exact .inl (h.fixed_of_head hmem).1
  . exact .inr ⟨c', v, rfl, hread⟩

theorem startsIn_string (h : Lexeme nearest t w)
    : (∃ s, t = .String s) ∨ StartsIn cases w ↔ StartsIn ((unit '"', readString) :: cases) w := by
  constructor
  . rintro (⟨s, rfl⟩ | ⟨c', v, rfl, hread⟩)
    . cases h with
      | string htext =>
        obtain ⟨v, rfl⟩ := htext.head
        exact ⟨_, v, rfl, mem_cons_self⟩
      | fixed hmem => simp [fixedTokens] at hmem
    . exact ⟨c', v, rfl, mem_cons_of_mem _ hread⟩
  . rintro ⟨c', v, rfl, hread⟩
    rcases mem_cons.mp hread with rfl | hread
    . obtain ⟨s, rfl, _⟩ := h.string_of_head
      exact .inl ⟨s, rfl⟩
    . exact .inr ⟨c', v, rfl, hread⟩

theorem startsIn_nil : False ↔ StartsIn ([] : Cases D) w := by
  constructor
  . exact False.elim
  . rintro ⟨c, v, _, hread⟩
    cases hread

theorem advanceAfterArrayElement_exact
    : Exact nearest (fun t => t = .Comma ∨ t = .ArrayClose ∨ False) advanceAfterArrayElement := by
  apply advanceTo_exact
  . exact .fixed (by simp [fixedTokens]) (.fixed (by simp [fixedTokens]) .nil)
  . intro t w h
    rw [← startsIn_unit (by simp [fixedTokens]) h, ← startsIn_unit (by simp [fixedTokens]) h, ← startsIn_nil]

theorem advanceAfterProperty_exact
    : Exact nearest (fun t => t = .Comma ∨ t = .ObjectClose ∨ False) advanceAfterProperty := by
  apply advanceTo_exact
  . exact .fixed (by simp [fixedTokens]) (.fixed (by simp [fixedTokens]) .nil)
  . intro t w h
    rw [← startsIn_unit (by simp [fixedTokens]) h, ← startsIn_unit (by simp [fixedTokens]) h, ← startsIn_nil]

theorem advancePropertyColon_exact : Exact nearest (fun t => t = .Colon ∨ False) advancePropertyColon := by
  apply advanceTo_exact
  . exact .fixed (by simp [fixedTokens]) .nil
  . intro t w h
    rw [← startsIn_unit (by simp [fixedTokens]) h, ← startsIn_nil]

theorem advancePropertyName_exact : Exact nearest (fun t => (∃ s, t = .String s) ∨ False) advancePropertyName := by
  apply advanceTo_exact
  . exact .string .nil
  . intro t w h
    rw [← startsIn_string h, ← startsIn_nil]

theorem advanceAfterObjectOpen_exact
    : Exact nearest (fun t => (∃ s, t = .String s) ∨ t = .ObjectClose ∨ False) advanceAfterObjectOpen := by
  apply advanceTo_exact
  . exact .string (.fixed (by simp [fixedTokens]) .nil)
  . intro t w h
    rw [← startsIn_string h, ← startsIn_unit (by simp [fixedTokens]) h, ← startsIn_nil]

theorem digit_cases (h : IsAsciiDigit c = true)
    : c = unit '0' ∨ c = unit '1' ∨ c = unit '2' ∨ c = unit '3' ∨ c = unit '4' ∨ c = unit '5' ∨ c = unit '6' ∨
        c = unit '7' ∨ c = unit '8' ∨ c = unit '9' := by
  have hc := isAsciiDigit_iff.mp h
  have hn : c.toNat = 0x30 ∨ c.toNat = 0x31 ∨ c.toNat = 0x32 ∨ c.toNat = 0x33 ∨ c.toNat = 0x34 ∨ c.toNat = 0x35 ∨
      c.toNat = 0x36 ∨ c.toNat = 0x37 ∨ c.toNat = 0x38 ∨ c.toNat = 0x39 := by
    omega
  have heq : c = .ofNat 16 c.toNat := by rw [BitVec.ofNat_toNat, BitVec.setWidth_eq]
  rcases hn with hn | hn | hn | hn | hn | hn | hn | hn | hn | hn <;> (rw [hn] at heq; rw [heq]; decide)

theorem advance_exact (hconv : conv.Correct nearest)
    : Exact nearest (fun _ => True) (advance conv) := by
  apply advanceTo_exact
  . have hnumber : ∀ c : CharT, c = unit '-' ∨ IsAsciiDigit c = true → ReadsFrom nearest c (readNumber conv) :=
      fun c hc => readNumber_from hconv hc
    refine .string (.cons (hnumber _ (.inl rfl)) rfl ?_)
    iterate 10 refine .cons (hnumber _ (.inr rfl)) rfl ?_
    iterate 3 refine .cons (readKeyword_from (by simp [fixedTokens])) rfl ?_
    iterate 6 refine .fixed (by simp [fixedTokens]) ?_
    exact .nil
  intro t w h
  refine iff_of_true trivial ?_
  cases h with
  | string htext =>
    obtain ⟨v, rfl⟩ := htext.head
    exact ⟨_, v, rfl, mem_cons_self⟩
  | number htext =>
    obtain ⟨c, v, rfl, hc⟩ := htext.head
    refine ⟨c, v, rfl, ?_⟩
    rcases hc with rfl | hc
    . simp only [map_cons, mem_cons, true_or, or_true]
    . rcases digit_cases hc with rfl | rfl | rfl | rfl | rfl | rfl | rfl | rfl | rfl | rfl <;>
        simp only [map_cons, mem_cons, true_or, or_true]
  | fixed hmem =>
    simp only [fixedTokens, mem_cons, Prod.mk.injEq, not_mem_nil, or_false] at hmem
    rcases hmem with ⟨_, rfl⟩ | ⟨_, rfl⟩ | ⟨_, rfl⟩ | ⟨_, rfl⟩ | ⟨_, rfl⟩ | ⟨_, rfl⟩ | ⟨_, rfl⟩ | ⟨_, rfl⟩ |
      ⟨_, rfl⟩ <;> exact ⟨_, _, rfl, by simp only [map_cons, mem_cons, true_or, or_true]⟩

end

-- What an entry of the stack has collected. The key of an object is pending between its colon and its value.
inductive Frame (D : Type) where
  | array (elements : List (Value D))
  | object (members : List (List CharT × Value D)) (key : Option (List CharT))

-- `Rest nearest frames v r result`: after the value `v`, with the frames open, the text `r` makes `result`.
def Rest (nearest : Nearest D) : List (Frame D) → Value D → List CharT → Value D → Prop
  | [], v, r, result => Whitespace r ∧ result = v
  | .array vs :: frames, v, r, result =>
    (∃ a r', r = a ++ unit ']' :: r' ∧ Whitespace a ∧ Rest nearest frames (.Array (vs ++ [v])) r' result) ∨
      ∃ a w vs' r', r = a ++ unit ',' :: (w ++ unit ']' :: r') ∧ Whitespace a ∧ ElementsText nearest w vs' ∧
        Rest nearest frames (.Array (vs ++ [v] ++ vs')) r' result
  | .object ms (some key) :: frames, v, r, result =>
    (∃ a r', r = a ++ unit '\x7d' :: r' ∧ Whitespace a ∧ Rest nearest frames (.Object (ms ++ [(key, v)])) r' result) ∨
      ∃ a w ms' r', r = a ++ unit ',' :: (w ++ unit '\x7d' :: r') ∧ Whitespace a ∧ MembersText nearest w ms' ∧
        Rest nearest frames (.Object (ms ++ [(key, v)] ++ ms')) r' result
  | .object _ none :: _, _, _, _ => False

def Start (nearest : Nearest D) (frames : List (Frame D)) (r : List CharT) (result : Value D) : Prop :=
  ∃ a w v r', r = a ++ (w ++ r') ∧ Whitespace a ∧ ValueText nearest w v ∧ Rest nearest frames v r' result

def MembersStart (nearest : Nearest D) (frames : List (Frame D)) (ms : List (List CharT × Value D)) (r : List CharT)
    (result : Value D) : Prop :=
  ∃ w ms' r', r = w ++ unit '\x7d' :: r' ∧ MembersText nearest w ms' ∧
    Rest nearest frames (.Object (ms ++ ms')) r' result

variable {nearest : Nearest D} {frames : List (Frame D)} {result : Value D}

variable {r : List CharT}

theorem stop_of_whitespace (ha : Whitespace a) (hr : Stop r) : Stop (a ++ r) := by
  cases a with
  | nil => exact hr
  | cons c a =>
    intro d hd
    cases hd
    rcases ha c mem_cons_self with rfl | rfl | rfl | rfl <;> decide

theorem Rest.stop (h : Rest nearest frames v r result) : Stop r := by
  have hcons : ∀ c ∈ [unit ']', unit ',', unit '\x7d'], ∀ r, Stop (c :: r) := by
    intro c hc r d hd
    cases hd
    simp only [mem_cons, not_mem_nil, or_false] at hc
    rcases hc with rfl | rfl | rfl <;> decide
  match frames, h with
  | [], h =>
    have := stop_of_whitespace (r := []) h.1 (fun d hd => by cases hd)
    rwa [append_nil] at this
  | .array vs :: frames, .inl ⟨a, r', hr, ha, _⟩ =>
    rw [hr]
    exact stop_of_whitespace ha (hcons _ (by simp) _)
  | .array vs :: frames, .inr ⟨a, w, vs', r', hr, ha, _⟩ =>
    rw [hr]
    exact stop_of_whitespace ha (hcons _ (by simp) _)
  | .object ms (some key) :: frames, .inl ⟨a, r', hr, ha, _⟩ =>
    rw [hr]
    exact stop_of_whitespace ha (hcons _ (by simp) _)
  | .object ms (some key) :: frames, .inr ⟨a, w, ms', r', hr, ha, _⟩ =>
    rw [hr]
    exact stop_of_whitespace ha (hcons _ (by simp) _)

theorem elements_iff {vs : List (Value D)}
    : (∃ w vs' r', r = w ++ unit ']' :: r' ∧ ElementsText nearest w vs' ∧
        Rest nearest frames (.Array (vs ++ vs')) r' result) ↔ Start nearest (.array vs :: frames) r result := by
  constructor
  . rintro ⟨w, vs', r', rfl, helements, hrest⟩
    cases helements with
    | @last a w b v ha hv hb =>
      refine ⟨a, w, v, b ++ unit ']' :: r', ?_, ha, hv, .inl ⟨b, r', rfl, hb, hrest⟩⟩
      simp only [append_assoc]
    | @cons a w b rest v vs' ha hv hb helements =>
      refine ⟨a, w, v, b ++ unit ',' :: (rest ++ unit ']' :: r'), ?_, ha, hv,
        .inr ⟨b, rest, vs', r', rfl, hb, helements, ?_⟩⟩
      . simp only [append_assoc, cons_append]
      . rwa [append_assoc, singleton_append]
  . rintro ⟨a, w, v, s, rfl, ha, hv, ⟨b, r', rfl, hb, hrest⟩ | ⟨b, u, vs', r', rfl, hb, helements, hrest⟩⟩
    . refine ⟨a ++ (w ++ b), [v], r', ?_, .last ha hv hb, hrest⟩
      simp only [append_assoc]
    refine ⟨a ++ (w ++ (b ++ unit ',' :: u)), v :: vs', r', ?_, .cons ha hv hb helements, ?_⟩
    . simp only [append_assoc, cons_append]
    . rwa [append_assoc, singleton_append] at hrest

variable {ms : List (List CharT × Value D)}

theorem members_iff
    : MembersStart nearest frames ms r result ↔
        ∃ a k key b r', r = a ++ (k ++ (b ++ unit ':' :: r')) ∧ Whitespace a ∧ StringText k key ∧ Whitespace b ∧
          Start nearest (.object ms (some key) :: frames) r' result := by
  constructor
  . rintro ⟨w, ms', r', rfl, hmembers, hrest⟩
    cases hmembers with
    | @last a k b c w d key v ha hk hb hc hv hd =>
      refine ⟨a, k, key, b, c ++ (w ++ (d ++ unit '\x7d' :: r')), ?_, ha, hk, hb, c, w, v, _, rfl, hc, hv,
        .inl ⟨d, r', rfl, hd, hrest⟩⟩
      simp only [append_assoc, cons_append]
    | @cons a k b c w d key rest v ms' ha hk hb hc hv hd hmembers =>
      refine ⟨a, k, key, b, c ++ (w ++ (d ++ unit ',' :: (rest ++ unit '\x7d' :: r'))), ?_, ha, hk, hb, c, w, v, _, rfl,
        hc, hv, .inr ⟨d, rest, ms', r', rfl, hd, hmembers, ?_⟩⟩
      . simp only [append_assoc, cons_append]
      . rwa [append_assoc, singleton_append]
  . rintro ⟨a, k, key, b, s, rfl, ha, hk, hb, c, w, v, s', rfl, hc, hv,
      ⟨d, r', rfl, hd, hrest⟩ | ⟨d, u, ms', r', rfl, hd, hmembers, hrest⟩⟩
    . refine ⟨a ++ (k ++ (b ++ unit ':' :: (c ++ (w ++ d)))), [(key, v)], r', ?_, .last ha hk hb hc hv hd, hrest⟩
      simp only [append_assoc, cons_append]
    refine ⟨a ++ (k ++ (b ++ unit ':' :: (c ++ (w ++ (d ++ unit ',' :: u))))), (key, v) :: ms', r', ?_,
      .cons ha hk hb hc hv hd hmembers, ?_⟩
    . simp only [append_assoc, cons_append]
    . rwa [append_assoc, singleton_append] at hrest

def SwitchAccepts (nearest : Nearest D) (frames : List (Frame D)) (result : Value D) : Token D → List CharT → Prop
  | .String s, r => Rest nearest frames (.String s) r result
  | .Number d, r => Rest nearest frames (.Number d) r result
  | .True, r => Rest nearest frames (.Boolean true) r result
  | .False, r => Rest nearest frames (.Boolean false) r result
  | .Null, r => Rest nearest frames .Null r result
  | .ArrayOpen, r =>
    (∃ a r', r = a ++ unit ']' :: r' ∧ Whitespace a ∧ Rest nearest frames (.Array []) r' result) ∨
      Start nearest (.array [] :: frames) r result
  | .ObjectOpen, r =>
    (∃ a r', r = a ++ unit '\x7d' :: r' ∧ Whitespace a ∧ Rest nearest frames (.Object []) r' result) ∨
      MembersStart nearest frames [] r result
  | _, _ => False

theorem SwitchAccepts.follow (h : SwitchAccepts nearest frames result t r)
    : t.Follow r := by
  rintro d rfl
  exact Rest.stop (v := .Number d) h

theorem start_iff
    : Start nearest frames r result ↔ ∃ a t w r', r = a ++ (w ++ r') ∧ Whitespace a ∧ Lexeme nearest t w ∧ True ∧
          SwitchAccepts nearest frames result t r' := by
  constructor
  . rintro ⟨a, w, v, r', rfl, ha, hv, hrest⟩
    cases hv with
    | null => exact ⟨a, .Null, _, r', rfl, ha, .fixed (by simp [fixedTokens]), trivial, hrest⟩
    | true => exact ⟨a, .True, _, r', rfl, ha, .fixed (by simp [fixedTokens]), trivial, hrest⟩
    | false => exact ⟨a, .False, _, r', rfl, ha, .fixed (by simp [fixedTokens]), trivial, hrest⟩
    | number hd => exact ⟨a, .Number _, w, r', rfl, ha, .number hd, trivial, hrest⟩
    | string hs => exact ⟨a, .String _, w, r', rfl, ha, .string hs, trivial, hrest⟩
    | @emptyArray b hb =>
      refine ⟨a, .ArrayOpen, [unit '['], b ++ unit ']' :: r', ?_, ha, .fixed (by simp [fixedTokens]), trivial,
        .inl ⟨b, r', rfl, hb, hrest⟩⟩
      simp only [append_assoc, cons_append, nil_append]
    | @array w vs helements =>
      refine ⟨a, .ArrayOpen, [unit '['], w ++ unit ']' :: r', ?_, ha, .fixed (by simp [fixedTokens]), trivial,
        .inr (elements_iff.mp ⟨w, vs, r', rfl, helements, hrest⟩)⟩
      simp only [append_assoc, cons_append, nil_append]
    | @emptyObject b hb =>
      refine ⟨a, .ObjectOpen, [unit '\x7b'], b ++ unit '\x7d' :: r', ?_, ha, .fixed (by simp [fixedTokens]), trivial,
        .inl ⟨b, r', rfl, hb, hrest⟩⟩
      simp only [append_assoc, cons_append, nil_append]
    | @object w ms hmembers =>
      refine ⟨a, .ObjectOpen, [unit '\x7b'], w ++ unit '\x7d' :: r', ?_, ha, .fixed (by simp [fixedTokens]), trivial,
        .inr ⟨w, ms, r', rfl, hmembers, hrest⟩⟩
      simp only [append_assoc, cons_append, nil_append]
  rintro ⟨a, t, w, r', rfl, ha, hlex, _, hacc⟩
  have hfixed : ∀ v : List CharT, (t, v) ∈ fixedTokens → w = v := fun v hv => hlex.text_of_fixed hv
  cases t with
  | String s =>
    cases hlex with
    | string hs => exact ⟨a, w, _, r', rfl, ha, .string hs, hacc⟩
    | fixed hmem => simp [fixedTokens] at hmem
  | Number d =>
    cases hlex with
    | number hd => exact ⟨a, w, _, r', rfl, ha, .number hd, hacc⟩
    | fixed hmem => simp [fixedTokens] at hmem
  | True =>
    cases hfixed _ (by simp [fixedTokens]; rfl)
    exact ⟨a, _, _, r', rfl, ha, .true, hacc⟩
  | False =>
    cases hfixed _ (by simp [fixedTokens]; rfl)
    exact ⟨a, _, _, r', rfl, ha, .false, hacc⟩
  | Null =>
    cases hfixed _ (by simp [fixedTokens]; rfl)
    exact ⟨a, _, _, r', rfl, ha, .null, hacc⟩
  | ArrayOpen =>
    cases hfixed _ (by simp [fixedTokens]; rfl)
    rcases hacc with ⟨b, s, rfl, hb, hrest⟩ | hstart
    . refine ⟨a, _, _, s, ?_, ha, .emptyArray hb, hrest⟩
      simp only [append_assoc, cons_append, nil_append]
    obtain ⟨w, vs, s, rfl, helements, hrest⟩ := elements_iff.mpr hstart
    refine ⟨a, _, _, s, ?_, ha, .array helements, hrest⟩
    simp only [append_assoc, cons_append, nil_append]
  | ObjectOpen =>
    cases hfixed _ (by simp [fixedTokens]; rfl)
    rcases hacc with ⟨b, s, rfl, hb, hrest⟩ | ⟨w, ms, s, rfl, hmembers, hrest⟩
    . refine ⟨a, _, _, s, ?_, ha, .emptyObject hb, hrest⟩
      simp only [append_assoc, cons_append, nil_append]
    . refine ⟨a, _, _, s, ?_, ha, .object hmembers, hrest⟩
      simp only [append_assoc, cons_append, nil_append]
  | ArrayClose => exact hacc.elim
  | ObjectClose => exact hacc.elim
  | Colon => exact hacc.elim
  | Comma => exact hacc.elim
  | Error report => exact hacc.elim

/- The other places of a token. -/

theorem fixed_iff {c : CharT} {t : Token D} {r : List CharT} {P : List CharT → Prop} (hmem : (t, [c]) ∈ fixedTokens)
    : (∃ a w r', r = a ++ (w ++ r') ∧ Whitespace a ∧ Lexeme nearest t w ∧ P r') ↔
        ∃ a r', r = a ++ c :: r' ∧ Whitespace a ∧ P r' := by
  constructor
  . rintro ⟨a, w, r', rfl, ha, hlex, hP⟩
    cases hlex.text_of_fixed hmem
    exact ⟨a, r', rfl, ha, hP⟩
  . rintro ⟨a, r', rfl, ha, hP⟩
    exact ⟨a, [c], r', rfl, ha, .fixed hmem, hP⟩

def AfterElement (nearest : Nearest D) (frames : List (Frame D)) (vs : List (Value D)) (v result : Value D)
    : Token D → List CharT → Prop
  | .Comma, r => Start nearest (.array (vs ++ [v]) :: frames) r result
  | .ArrayClose, r => Rest nearest frames (.Array (vs ++ [v])) r result
  | _, _ => False

theorem rest_array_iff {vs : List (Value D)} {v : Value D}
    : Rest nearest (.array vs :: frames) v r result ↔
        ∃ a t w r', r = a ++ (w ++ r') ∧ Whitespace a ∧ Lexeme nearest t w ∧ (t = .Comma ∨ t = .ArrayClose ∨ False) ∧
          AfterElement nearest frames vs v result t r' := by
  have hcomma := @fixed_iff D nearest (unit ',') .Comma r
    (fun r' => Start nearest (.array (vs ++ [v]) :: frames) r' result) (by simp [fixedTokens])
  have hclose := @fixed_iff D nearest (unit ']') .ArrayClose r
    (fun r' => Rest nearest frames (.Array (vs ++ [v])) r' result) (by simp [fixedTokens])
  constructor
  . rintro (h | ⟨a, w, vs', r', rfl, ha, helements, hrest⟩)
    . obtain ⟨a, w, r', hr, ha, hlex, hrest⟩ := hclose.mpr h
      exact ⟨a, _, w, r', hr, ha, hlex, .inr (.inl rfl), hrest⟩
    obtain ⟨a, w, r', hr, ha, hlex, hstart⟩ :=
      hcomma.mpr ⟨a, _, rfl, ha, elements_iff.mp ⟨w, vs', r', rfl, helements, hrest⟩⟩
    exact ⟨a, _, w, r', hr, ha, hlex, .inl rfl, hstart⟩
  rintro ⟨a, t, w, r', hr, ha, hlex, rfl | rfl | h, hacc⟩
  . obtain ⟨a, r', rfl, ha, hstart⟩ := hcomma.mp ⟨a, w, r', hr, ha, hlex, hacc⟩
    obtain ⟨w, vs', s, rfl, helements, hrest⟩ := elements_iff.mpr hstart
    exact .inr ⟨a, w, vs', s, rfl, ha, helements, hrest⟩
  . exact .inl (hclose.mp ⟨a, w, r', hr, ha, hlex, hacc⟩)
  . exact h.elim

def AfterProperty (nearest : Nearest D) (frames : List (Frame D)) (ms : List (List CharT × Value D))
    (result : Value D) : Token D → List CharT → Prop
  | .Comma, r => MembersStart nearest frames ms r result
  | .ObjectClose, r => Rest nearest frames (.Object ms) r result
  | _, _ => False

theorem rest_object_iff {key : List CharT} {v : Value D}
    : Rest nearest (.object ms (some key) :: frames) v r result ↔
        ∃ a t w r', r = a ++ (w ++ r') ∧ Whitespace a ∧ Lexeme nearest t w ∧ (t = .Comma ∨ t = .ObjectClose ∨ False) ∧
          AfterProperty nearest frames (ms ++ [(key, v)]) result t r' := by
  have hcomma := @fixed_iff D nearest (unit ',') .Comma r
    (fun r' => MembersStart nearest frames (ms ++ [(key, v)]) r' result) (by simp [fixedTokens])
  have hclose := @fixed_iff D nearest (unit '\x7d') .ObjectClose r
    (fun r' => Rest nearest frames (.Object (ms ++ [(key, v)])) r' result) (by simp [fixedTokens])
  constructor
  . rintro (h | ⟨a, w, ms', r', rfl, ha, hmembers, hrest⟩)
    . obtain ⟨a, w, r', hr, ha, hlex, hrest⟩ := hclose.mpr h
      exact ⟨a, _, w, r', hr, ha, hlex, .inr (.inl rfl), hrest⟩
    . obtain ⟨a, w, r', hr, ha, hlex, hstart⟩ := hcomma.mpr ⟨a, _, rfl, ha, w, ms', r', rfl, hmembers, hrest⟩
      exact ⟨a, _, w, r', hr, ha, hlex, .inl rfl, hstart⟩
  rintro ⟨a, t, w, r', hr, ha, hlex, rfl | rfl | h, hacc⟩
  . obtain ⟨a, r', rfl, ha, w, ms', s, rfl, hmembers, hrest⟩ := hcomma.mp ⟨a, w, r', hr, ha, hlex, hacc⟩
    exact .inr ⟨a, w, ms', s, rfl, ha, hmembers, hrest⟩
  . exact .inl (hclose.mp ⟨a, w, r', hr, ha, hlex, hacc⟩)
  . exact h.elim

def AfterName (nearest : Nearest D) (frames : List (Frame D)) (ms : List (List CharT × Value D)) (key : List CharT)
    (result : Value D) : Token D → List CharT → Prop
  | .Colon, r => Start nearest (.object ms (some key) :: frames) r result
  | _, _ => False

def MemberAccepts (nearest : Nearest D) (frames : List (Frame D)) (ms : List (List CharT × Value D))
    (result : Value D) : Token D → List CharT → Prop
  | .String key, r =>
    ∃ a r', r = a ++ unit ':' :: r' ∧ Whitespace a ∧ Start nearest (.object ms (some key) :: frames) r' result
  | _, _ => False

theorem colon_iff {key : List CharT}
    : MemberAccepts nearest frames ms result (.String key) r ↔
        ∃ a t w r', r = a ++ (w ++ r') ∧ Whitespace a ∧ Lexeme nearest t w ∧ (t = .Colon ∨ False) ∧
          AfterName nearest frames ms key result t r' := by
  have hcolon := @fixed_iff D nearest (unit ':') .Colon r
    (fun r' => Start nearest (.object ms (some key) :: frames) r' result) (by simp [fixedTokens])
  constructor
  . intro h
    obtain ⟨a, w, r', hr, ha, hlex, hstart⟩ := hcolon.mpr h
    exact ⟨a, _, w, r', hr, ha, hlex, .inl rfl, hstart⟩
  rintro ⟨a, t, w, r', hr, ha, hlex, rfl | h, hacc⟩
  . exact hcolon.mp ⟨a, w, r', hr, ha, hlex, hacc⟩
  . exact h.elim

theorem membersStart_iff
    : MembersStart nearest frames ms r result ↔
        ∃ a t w r', r = a ++ (w ++ r') ∧ Whitespace a ∧ Lexeme nearest t w ∧ ((∃ s, t = .String s) ∨ False) ∧
          MemberAccepts nearest frames ms result t r' := by
  rw [members_iff]
  constructor
  . rintro ⟨a, k, key, b, r', rfl, ha, hk, hb, hstart⟩
    exact ⟨a, .String key, k, _, rfl, ha, .string hk, .inl ⟨key, rfl⟩, b, r', rfl, hb, hstart⟩
  rintro ⟨a, t, w, r', rfl, ha, hlex, ⟨s, rfl⟩ | h, hacc⟩
  . obtain ⟨b, r', rfl, hb, hstart⟩ := hacc
    cases hlex with
    | string hk => exact ⟨a, w, s, b, r', rfl, ha, hk, hb, hstart⟩
    | fixed hmem => simp [fixedTokens] at hmem
  . exact h.elim

def AfterObjectOpen (nearest : Nearest D) (frames : List (Frame D)) (result : Value D) : Token D → List CharT → Prop
  | .ObjectClose, r => Rest nearest frames (.Object []) r result
  | t, r => MemberAccepts nearest frames [] result t r

theorem objectOpen_iff
    : SwitchAccepts nearest frames result .ObjectOpen r ↔
        ∃ a t w r', r = a ++ (w ++ r') ∧ Whitespace a ∧ Lexeme nearest t w ∧
          ((∃ s, t = .String s) ∨ t = .ObjectClose ∨ False) ∧ AfterObjectOpen nearest frames result t r' := by
  have hclose := @fixed_iff D nearest (unit '\x7d') .ObjectClose r
    (fun r' => Rest nearest frames (.Object []) r' result) (by simp [fixedTokens])
  constructor
  . rintro (h | h)
    . obtain ⟨a, w, r', hr, ha, hlex, hrest⟩ := hclose.mpr h
      exact ⟨a, _, w, r', hr, ha, hlex, .inr (.inl rfl), hrest⟩
    obtain ⟨a, t, w, r', hr, ha, hlex, ⟨s, rfl⟩ | h, hacc⟩ := membersStart_iff.mp h
    . exact ⟨a, _, w, r', hr, ha, hlex, .inl ⟨s, rfl⟩, hacc⟩
    . exact h.elim
  . rintro ⟨a, t, w, r', hr, ha, hlex, ⟨s, rfl⟩ | rfl | h, hacc⟩
    . exact .inr (membersStart_iff.mpr ⟨a, _, w, r', hr, ha, hlex, .inl ⟨s, rfl⟩, hacc⟩)
    . exact .inl (hclose.mp ⟨a, w, r', hr, ha, hlex, hacc⟩)
    . exact h.elim

def AfterArrayOpen (nearest : Nearest D) (frames : List (Frame D)) (result : Value D) : Token D → List CharT → Prop
  | .ArrayClose, r => Rest nearest frames (.Array []) r result
  | t, r => SwitchAccepts nearest (.array [] :: frames) result t r

theorem arrayOpen_iff
    : SwitchAccepts nearest frames result .ArrayOpen r ↔
        ∃ a t w r', r = a ++ (w ++ r') ∧ Whitespace a ∧ Lexeme nearest t w ∧ True ∧
          AfterArrayOpen nearest frames result t r' := by
  have hclose := @fixed_iff D nearest (unit ']') .ArrayClose r
    (fun r' => Rest nearest frames (.Array []) r' result) (by simp [fixedTokens])
  constructor
  . rintro (h | h)
    . obtain ⟨a, w, r', hr, ha, hlex, hrest⟩ := hclose.mpr h
      exact ⟨a, _, w, r', hr, ha, hlex, trivial, hrest⟩
    obtain ⟨a, t, w, r', hr, ha, hlex, _, hacc⟩ := start_iff.mp h
    refine ⟨a, t, w, r', hr, ha, hlex, trivial, ?_⟩
    cases t with
    | ArrayClose => exact hacc.elim
    | _ => exact hacc
  . rintro ⟨a, t, w, r', hr, ha, hlex, _, hacc⟩
    cases t with
    | ArrayClose => exact .inl (hclose.mp ⟨a, w, r', hr, ha, hlex, hacc⟩)
    | _ => exact .inr (start_iff.mpr ⟨a, _, w, r', hr, ha, hlex, trivial, hacc⟩)

end SpiderMonkey.JSON
