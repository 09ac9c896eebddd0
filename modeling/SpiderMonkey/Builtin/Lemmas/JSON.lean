import SpiderMonkey.Builtin.Impl.JSON
import SpiderMonkey.Vm.JSONParser

/-!
This module contains the lemmas about quoting: what is written for a unit is a part of a string body that denotes
the unit, and there is room for it.
-/

namespace SpiderMonkey.JSON

open List

def Fragment (w s : List CharT) : Prop := ∀ u t, StringBody u t → StringBody (w ++ u) (s ++ t)

theorem Fragment.nil : Fragment [] [] := fun _ _ h => h

theorem Fragment.append (h : Fragment w s) (h' : Fragment w' s')
    : Fragment (w ++ w') (s ++ s') := by
  intro u t hbody
  rw [append_assoc, append_assoc]
  exact h _ _ (h' _ _ hbody)

theorem Fragment.unescaped (hctrl : 0x20 ≤ c.toNat) (hquote : c ≠ unit '"') (hbackslash : c ≠ unit '\\')
    : Fragment [c] [c] :=
  fun _ _ h => .unescaped hctrl hquote hbackslash h

theorem Fragment.escape (h : Escape e c) : Fragment (unit '\\' :: e) [c] :=
  fun _ _ hbody => .escape h hbody

/- The destination. -/

def Fits (dst : Dst) (w : List CharT) : Prop := dst.isLatin1 = true → ∀ c ∈ w, c.toNat < 256

theorem keepsByte {c : CharT} (h : c.toNat < 256) : (c.setWidth 8).setWidth 16 = c := by
  apply BitVec.eq_of_toNat_eq
  rw [BitVec.toNat_setWidth, BitVec.toNat_setWidth, Nat.mod_eq_of_lt h, Nat.mod_eq_of_lt c.isLt]

theorem write_eq (dst : Dst) (hfits : Fits dst [c]) (hroom : dst.written.length + 1 ≤ dst.room)
    : dst.write c = some { dst with written := dst.written ++ [c] } := by
  rw [Dst.write, if_pos (by omega)]
  dsimp only
  split
  . next hlatin1 => rw [keepsByte (hfits hlatin1 c (mem_singleton_self c))]
  . rfl

theorem writeAll_eq (dst : Dst) (hfits : Fits dst w) (hroom : dst.written.length + w.length ≤ dst.room)
    : dst.writeAll w = some { dst with written := dst.written ++ w } := by
  induction w generalizing dst with
  | nil =>
    rw [Dst.writeAll, foldlM_nil, append_nil]
    rfl
  | cons c w ih =>
    rw [length_cons] at hroom
    have hc := write_eq dst (c := c) (fun h d hd => by
      rw [mem_singleton.mp hd]
      exact hfits h c mem_cons_self) (by omega)
    rw [Dst.writeAll, foldlM_cons, hc]
    have hrest := @ih { dst with written := dst.written ++ [c] } (fun h d hd => hfits h d (mem_cons_of_mem c hd))
      (by
        dsimp only
        rw [length_append, length_singleton]
        omega)
    rw [Dst.writeAll] at hrest
    rw [some_bind, hrest, append_assoc, singleton_append]

/- What is written for a unit. -/

theorem toLowerHex_spec (h : n < 16) : ∃ c, ToLowerHex n = some c ∧ HexDigit c n ∧ c.toNat < 256 := by
  have hall : ∀ n < 10, ToLowerHex n = some (.ofNat 16 (0x30 + n)) := by decide
  have hall' : ∀ n < 6, ToLowerHex (10 + n) = some (.ofNat 16 (0x61 + n)) := by decide
  rcases Nat.lt_or_ge n 10 with hlt | hge
  . have htoNat : (BitVec.ofNat 16 (0x30 + n)).toNat = 0x30 + n := by
      rw [BitVec.toNat_ofNat]
      omega
    exact ⟨_, hall n hlt, .decimal hlt htoNat, by omega⟩
  obtain ⟨m, rfl⟩ := Nat.exists_eq_add_of_le hge
  have htoNat : (BitVec.ofNat 16 (0x61 + m)).toNat = 0x61 + m := by
    rw [BitVec.toNat_ofNat]
    omega
  exact ⟨_, hall' m (by omega), .lower (by omega) htoNat, by omega⟩

def Writes (write : Dst → Option Dst) (s : List CharT) : Prop :=
  ∃ w, w.length ≤ 6 * s.length ∧ ((∀ c ∈ s, c.toNat < 256) → ∀ c ∈ w, c.toNat < 256) ∧ Fragment w s ∧
    ∀ dst : Dst, Fits dst w → dst.written.length + w.length ≤ dst.room →
      write dst = some { dst with written := dst.written ++ w }

theorem escapeLookup_cases : ∀ n < 256,
    (escapeLookup.getD n '\x00' = '\x00' ∧ 0x20 ≤ n ∧ n ≠ 0x22 ∧ n ≠ 0x5C) ∨
      (escapeLookup.getD n '\x00' = 'u' ∧ n < 0x20) ∨
        (n, escapeLookup.getD n '\x00') ∈ [(0x08, 'b'), (0x09, 't'), (0x0A, 'n'), (0x0C, 'f'), (0x0D, 'r'), (0x22, '"'),
          (0x5C, '\\')] := by
  decide +kernel

theorem ne_of_toNat_ne {c d : CharT} (h : c.toNat ≠ d.toNat) : c ≠ d := by
  rintro rfl
  exact h rfl

theorem Writes.nil : Writes some [] := by
  refine ⟨[], Nat.le_refl _, fun _ c hc => (not_mem_nil hc).elim, .nil, ?_⟩
  intro dst _ _
  rw [append_nil]

theorem Writes.bind (hf : Writes f s) (hg : Writes g t)
    : Writes (fun dst => f dst >>= g) (s ++ t) := by
  obtain ⟨w, hlen, hbyte, hfrag, hrun⟩ := hf
  obtain ⟨w', hlen', hbyte', hfrag', hrun'⟩ := hg
  refine ⟨w ++ w', ?_, ?_, hfrag.append hfrag', ?_⟩
  . simp only [length_append]
    omega
  . intro h c hc
    rcases mem_append.mp hc with hc | hc
    . exact hbyte (fun d hd => h d (mem_append_left _ hd)) c hc
    . exact hbyte' (fun d hd => h d (mem_append_right _ hd)) c hc
  intro dst hfits hroom
  rw [length_append] at hroom
  have hfirst := hrun dst (fun h c hc => hfits h c (mem_append_left _ hc)) (by omega)
  have hsecond := hrun' { dst with written := dst.written ++ w } (fun h c hc => hfits h c (mem_append_right _ hc))
    (by
      dsimp only
      rw [length_append]
      omega)
  dsimp only
  rw [hfirst, some_bind, hsecond, append_assoc]

theorem writes_units (hlen : w.length ≤ 6 * s.length)
    (hbyte : (∀ c ∈ s, c.toNat < 256) → ∀ c ∈ w, c.toNat < 256) (hfrag : Fragment w s)
    : Writes (fun dst => dst.writeAll w) s :=
  ⟨w, hlen, hbyte, hfrag, fun dst hfits hroom => writeAll_eq dst hfits hroom⟩

theorem writes_unescaped (hctrl : 0x20 ≤ c.toNat) (hquote : c ≠ unit '"') (hbackslash : c ≠ unit '\\')
    : Writes (fun dst => dst.write c) [c] :=
  ⟨[c], by simp only [length_singleton]; omega, id, .unescaped hctrl hquote hbackslash,
    fun dst hfits hroom => write_eq dst hfits hroom⟩

theorem toNat_eq_hex (c : CharT)
    : (c.toNat >>> 12) * 16 ^ 3 + ((c.toNat >>> 8) &&& 0xF) * 16 ^ 2 + ((c.toNat >>> 4) &&& 0xF) * 16 +
        (c.toNat &&& 0xF) = c.toNat := by
  have h := Nat.and_two_pow_sub_one_eq_mod
  rw [h (c.toNat >>> 8) 4, h (c.toNat >>> 4) 4, h c.toNat 4]
  have := c.isLt
  simp only [Nat.shiftRight_eq_div_pow]
  omega

theorem writeLoneSurrogate_writes (c : CharT) : Writes (fun dst => writeLoneSurrogate dst c) [c] := by
  have hlow : ∀ n : Nat, n &&& 0xF < 16 := fun n => Nat.lt_of_le_of_lt Nat.and_le_right (by decide)
  have hhigh : c.toNat >>> 12 < 16 := by
    have := c.isLt
    rw [Nat.shiftRight_eq_div_pow]
    omega
  obtain ⟨c₃, e₃, h₃, b₃⟩ := toLowerHex_spec hhigh
  obtain ⟨c₂, e₂, h₂, b₂⟩ := toLowerHex_spec (hlow (c.toNat >>> 8))
  obtain ⟨c₁, e₁, h₁, b₁⟩ := toLowerHex_spec (hlow (c.toNat >>> 4))
  obtain ⟨c₀, e₀, h₀, b₀⟩ := toLowerHex_spec (hlow c.toNat)
  have hescape := Escape.unicode h₃ h₂ h₁ h₀
  rw [toNat_eq_hex, BitVec.ofNat_toNat, BitVec.setWidth_eq] at hescape
  have hwrites : Writes (fun dst => dst.writeAll [unit '\\', unit 'u', c₃, c₂, c₁, c₀]) [c] := by
    refine writes_units (Nat.le_refl _) ?_ (.escape hescape)
    intro _ d hd
    simp only [mem_cons, not_mem_nil, or_false] at hd
    rcases hd with rfl | rfl | rfl | rfl | rfl | rfl
    . decide
    . decide
    . exact b₃
    . exact b₂
    . exact b₁
    . exact b₀
  simpa only [writeLoneSurrogate, e₃, e₂, e₁, e₀, some_bind] using hwrites

theorem writeLatin1_letter (hlookup : escapeLookup.getD c.toNat '\x00' = e) (hzero : e ≠ '\x00')
    (hne : e ≠ 'u') (hbyte : (unit e).toNat < 256) (hescape : Escape [unit e] c)
    : Writes (fun dst => writeLatin1 dst c) [c] := by
  have hwrites : Writes (fun dst => dst.writeAll [unit '\\', unit e]) [c] := by
    refine writes_units (by simp only [length_cons, length_nil]; omega) ?_ (.escape hescape)
    intro _ d hd
    simp only [mem_cons, not_mem_nil, or_false] at hd
    rcases hd with rfl | rfl
    . decide
    . exact hbyte
  simpa only [writeLatin1, hlookup, hzero, hne, if_false, Option.bind_eq_bind, Option.bind_some, Option.bind_fun_some]
    using hwrites

theorem writeLatin1_writes (h : c.toNat < 256) : Writes (fun dst => writeLatin1 dst c) [c] := by
  rcases escapeLookup_cases c.toNat h with ⟨hlookup, hctrl, hquote, hbackslash⟩ | ⟨hlookup, hctrl⟩ | hmem
  . have hwrites := writes_unescaped hctrl (ne_of_toNat_ne (d := unit '"') hquote)
      (ne_of_toNat_ne (d := unit '\\') hbackslash)
    simpa only [writeLatin1, hlookup, if_true] using hwrites
  . have hlow : c.toNat &&& 0xF < 16 := Nat.lt_of_le_of_lt Nat.and_le_right (by decide)
    have hx : c.toNat >>> 4 < 10 := by
      rw [Nat.shiftRight_eq_div_pow]
      omega
    obtain ⟨c₀, e₀, h₀, b₀⟩ := toLowerHex_spec hlow
    have hx' : (BitVec.ofNat 16 (0x30 + c.toNat >>> 4)).toNat = 0x30 + c.toNat >>> 4 := by
      rw [BitVec.toNat_ofNat]
      omega
    have hvalue : 0 * 16 ^ 3 + 0 * 16 ^ 2 + (c.toNat >>> 4) * 16 + (c.toNat &&& 0xF) = c.toNat := by
      rw [Nat.and_two_pow_sub_one_eq_mod c.toNat 4, Nat.shiftRight_eq_div_pow]
      omega
    have hzero : HexDigit (unit '0') 0 := .decimal (by decide) rfl
    have hescape := Escape.unicode hzero hzero (.decimal hx hx') h₀
    rw [hvalue, BitVec.ofNat_toNat, BitVec.setWidth_eq] at hescape
    have hwrites : Writes (fun dst => dst.writeAll [unit '\\', unit 'u'] >>= fun dst =>
        dst.writeAll [unit '0', unit '0', .ofNat 16 (0x30 + c.toNat >>> 4), c₀]) [c] := by
      refine ⟨[unit '\\', unit 'u', unit '0', unit '0', .ofNat 16 (0x30 + c.toNat >>> 4), c₀], Nat.le_refl _, ?_,
        .escape hescape, ?_⟩
      . intro _ d hd
        simp only [mem_cons, not_mem_nil, or_false] at hd
        rcases hd with rfl | rfl | rfl | rfl | rfl | rfl
        . decide
        . decide
        . decide
        . decide
        . omega
        . exact b₀
      intro dst hfits hroom
      simp only [length_cons, length_nil] at hroom
      have hfirst := writeAll_eq dst (w := [unit '\\', unit 'u'])
        (fun h d hd => hfits h d (by simp only [mem_cons, not_mem_nil, or_false] at hd ⊢; tauto))
        (by simp only [length_cons, length_nil]; omega)
      have hsecond := writeAll_eq { dst with written := dst.written ++ [unit '\\', unit 'u'] }
        (w := [unit '0', unit '0', .ofNat 16 (0x30 + c.toNat >>> 4), c₀])
        (fun h d hd => hfits h d (by simp only [mem_cons, not_mem_nil, or_false] at hd ⊢; tauto))
        (by simp only [length_append, length_cons, length_nil]; omega)
      dsimp only
      rw [hfirst, some_bind, hsecond]
      simp only [append_assoc, cons_append, nil_append]
    have hne : ¬('u' : Char) = '\x00' := by decide
    simpa only [writeLatin1, hlookup, hne, if_false, if_true, hx, e₀, some_bind] using hwrites
  . simp only [mem_cons, Prod.mk.injEq, not_mem_nil, or_false] at hmem
    have hc : ∀ d : CharT, c.toNat = d.toNat → c = d := fun d hd => BitVec.eq_of_toNat_eq hd
    rcases hmem with ⟨hn, hlookup⟩ | ⟨hn, hlookup⟩ | ⟨hn, hlookup⟩ | ⟨hn, hlookup⟩ | ⟨hn, hlookup⟩ | ⟨hn, hlookup⟩ |
      ⟨hn, hlookup⟩
    . exact writeLatin1_letter hlookup (by decide) (by decide) (by decide) (hc 0x08 hn ▸ .backspace)
    . exact writeLatin1_letter hlookup (by decide) (by decide) (by decide) (hc 0x09 hn ▸ .tab)
    . exact writeLatin1_letter hlookup (by decide) (by decide) (by decide) (hc 0x0A hn ▸ .lineFeed)
    . exact writeLatin1_letter hlookup (by decide) (by decide) (by decide) (hc 0x0C hn ▸ .formFeed)
    . exact writeLatin1_letter hlookup (by decide) (by decide) (by decide) (hc 0x0D hn ▸ .carriageReturn)
    . exact writeLatin1_letter hlookup (by decide) (by decide) (by decide) (hc 0x22 hn ▸ .quote)
    . exact writeLatin1_letter hlookup (by decide) (by decide) (by decide) (hc 0x5C hn ▸ .backslash)

theorem writes_large (h : ¬c.toNat < 256) : Writes (fun dst => dst.write c) [c] := by
  apply writes_unescaped
  . omega
  . exact ne_of_toNat_ne (d := unit '"') (by intro heq; rw [heq] at h; exact h (by decide))
  . exact ne_of_toNat_ne (d := unit '\\') (by intro heq; rw [heq] at h; exact h (by decide))

theorem quoteUnits_writes : ∀ src : List CharT, Writes (quoteUnits src) src
  | [] => .nil
  | [c] => by
    have hcons : ∀ write : Dst → Option Dst, Writes write [c] → Writes (fun dst => write dst >>= quoteUnits []) [c] :=
      fun write h => h.bind .nil
    by_cases hlatin1 : c.toNat < 256
    . have h := hcons _ (writeLatin1_writes hlatin1)
      simpa only [quoteUnits, hlatin1, if_true] using h
    cases hsurrogate : CharacterEncoding.IsSurrogate c.toNat with
    | false =>
      have h := hcons _ (writes_large hlatin1)
      simpa only [quoteUnits, hlatin1, if_false, hsurrogate, Bool.not_false, if_true] using h
    | true =>
      have h := hcons _ (writeLoneSurrogate_writes c)
      simpa only [quoteUnits, hlatin1, if_false, hsurrogate, Bool.not_true, Bool.false_eq_true] using h
  | c :: d :: src => by
    have hcons : ∀ write : Dst → Option Dst, Writes write [c] →
        Writes (fun dst => write dst >>= quoteUnits (d :: src)) (c :: d :: src) :=
      fun write h => h.bind (quoteUnits_writes (d :: src))
    by_cases hlatin1 : c.toNat < 256
    . have h := hcons _ (writeLatin1_writes hlatin1)
      simpa only [quoteUnits, hlatin1, if_true] using h
    cases hsurrogate : CharacterEncoding.IsSurrogate c.toNat with
    | false =>
      have h := hcons _ (writes_large hlatin1)
      simpa only [quoteUnits, hlatin1, if_false, hsurrogate, Bool.not_false, if_true] using h
    | true =>
      cases hpair : IsLeadSurrogate c && IsTrailSurrogate d with
      | true =>
        have hd : ¬d.toNat < 256 := by
          rw [Bool.and_eq_true, IsTrailSurrogate, Bool.and_eq_true, decide_eq_true_eq] at hpair
          omega
        have hwrites : Writes (fun dst => dst.writeAll [c, d]) [c, d] := by
          have hfirst := writes_large hlatin1
          have h := hfirst.bind (writes_large hd)
          have heq : (fun dst : Dst => dst.writeAll [c, d]) = fun dst => dst.write c >>= fun dst => dst.write d := by
            funext dst
            simp only [Dst.writeAll, foldlM_cons, foldlM_nil, Option.bind_eq_bind, Option.pure_def,
              Option.bind_fun_some]
          rw [heq]
          exact h
        have h : Writes (fun dst => dst.writeAll [c, d] >>= quoteUnits src) (c :: d :: src) :=
          hwrites.bind (quoteUnits_writes src)
        simpa only [quoteUnits, hlatin1, if_false, hsurrogate, Bool.not_true, Bool.false_eq_true, hpair, if_true]
          using h
      | false =>
        have h := hcons _ (writeLoneSurrogate_writes c)
        simpa only [quoteUnits, hlatin1, if_false, hsurrogate, Bool.not_true, Bool.false_eq_true, hpair] using h

theorem JSLinearString.length_units (str : JSLinearString) : str.units.length = str.length := by
  cases str with
  | latin1 chars => exact length_map _
  | twoByte chars => rfl

theorem infallibleQuote_eq (src : List CharT) (isLatin1 : Bool) (hbyte : isLatin1 = true → ∀ c ∈ src, c.toNat < 256)
    : ∃ out, InfallibleQuote src ⟨isLatin1, src.length * 6 + 2, []⟩ = some ⟨isLatin1, src.length * 6 + 2, out⟩ ∧
        out.length ≤ 6 * src.length + 2 ∧ StringText out src := by
  obtain ⟨w, hlen, hwbyte, hfrag, hrun⟩ := quoteUnits_writes src
  have hquote : ∀ dst : Dst, Fits dst [unit '"'] := by
    intro dst _ c hc
    rw [mem_singleton.mp hc]
    decide
  have hfirst := write_eq ⟨isLatin1, src.length * 6 + 2, []⟩ (hquote _) (by dsimp only [length_nil]; omega)
  have hbody := hrun ⟨isLatin1, src.length * 6 + 2, [unit '"']⟩ (fun h => hwbyte (hbyte h))
    (by dsimp only [length_singleton]; omega)
  have hlast := write_eq ⟨isLatin1, src.length * 6 + 2, [unit '"'] ++ w⟩ (hquote _)
    (by dsimp only; rw [length_append, length_singleton]; omega)
  refine ⟨[unit '"'] ++ w ++ [unit '"'], ?_, ?_, ?_⟩
  . rw [InfallibleQuote, hfirst, some_bind]
    dsimp only [nil_append]
    rw [hbody, some_bind, hlast]
  . simp only [length_append, length_singleton]
    omega
  . have h := hfrag [] [] .nil
    rw [append_nil, append_nil] at h
    exact .quoted h

end SpiderMonkey.JSON
