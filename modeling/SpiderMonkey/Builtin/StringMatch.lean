import SpiderMonkey.Builtin.Lemmas.StringMatch

/-!
This module contains the proof that the searches for a string find its first occurrence, or its last one, and that
searching a rope finds what searching the text does.
-/

namespace SpiderMonkey.StringSearch

open List
open JSON (JSLinearString)

variable {text pat p1 : List CharT} {p0 : CharT} {i start : Nat} {isI386 textIsLatin1 patIsLatin1 : Bool}

theorem StringMatchChars_returns (htext : textIsLatin1 = true → ∀ c ∈ text, c.toNat < 256)
    (hpat : patIsLatin1 = true → ∀ c ∈ pat, c.toNat < 256)
    : Returns (StringMatchChars isI386 textIsLatin1 patIsLatin1 text pat) (Occurs pat text) 0 := by
  unfold StringMatchChars
  dsimp only
  cases pat with
  | nil => exact ⟨some 0, rfl, .here nil_prefix⟩
  | cons p0 p1 =>
    have hne : (p0 :: p1).length ≠ 0 := Nat.succ_ne_zero _
    rw [if_neg hne]
    split
    next hlt =>
      refine ⟨none, rfl, .nowhere fun i _ h => ?_⟩
      have := h.le_length (cons_ne_nil p0 p1)
      omega
    next hge =>
      rw [Nat.not_lt] at hge
      split
      next hone =>
        rw [Bool.and_eq_true, beq_iff_eq] at hone
        obtain rfl := length_eq_zero_iff.mp (Nat.succ.inj hone.2)
        obtain ⟨r, hr, hleast⟩ := @testUnits_finds text p0 0 text.length (Nat.le_of_eq (Nat.zero_add _))
        rw [List.getElem?_cons_zero, some_bind, hr, some_bind]
        refine ⟨r, by cases r <;> rfl, hleast.congr fun i _ => ?_⟩
        rw [occurs_cons_iff, and_iff_left nil_prefix, Nat.zero_add]
        exact and_iff_right_of_imp fun h => (List.getElem?_eq_some_iff.mp h).1
      next =>
        have hmatcher : Returns (if (decide ((p0 :: p1).length > 128) && textIsLatin1 == patIsLatin1) = true then
            Matcher .MemCmp textIsLatin1 patIsLatin1 text (p0 :: p1)
          else Matcher .ManualCmp textIsLatin1 patIsLatin1 text (p0 :: p1)) (Occurs (p0 :: p1) text) 0 := by
          split
          next hsame =>
            rw [Bool.and_eq_true, beq_iff_eq] at hsame
            exact Matcher_returns hge htext hpat fun _ => hsame.2
          next => exact Matcher_returns hge htext hpat nofun
        have hfirst : ∃ index, (if text.length ≥ 512 ∧ (p0 :: p1).length ≥ 11 ∧ (p0 :: p1).length ≤ sBMHPatLenMax then
            BoyerMooreHorspool text (p0 :: p1) else some sBMHBadPattern) = some index
            ∧ (index = sBMHBadPattern ∨ index ≠ sBMHBadPattern ∧ Returns (some index) (Occurs (p0 :: p1) text) 0) := by
          split
          next hlong =>
            rcases BoyerMooreHorspool_returns (Nat.pos_of_ne_zero hne) hlong.2.2 with hbad | ⟨r, hr, hleast⟩
            . exact ⟨_, hbad, .inl rfl⟩
            refine ⟨_, hr, .inr ⟨?_, r, rfl, hleast⟩⟩
            unfold sBMHBadPattern
            cases r with
            | none => decide
            | some n => exact fun h => by cases h
          next => exact ⟨_, rfl, .inl rfl⟩
        obtain ⟨index, hindex, hcases⟩ := hfirst
        change Returns ((if _ then _ else some sBMHBadPattern) >>= _) _ _
        rw [hindex, some_bind]
        rcases hcases with rfl | ⟨hne, hreturns⟩
        . rw [if_neg (not_not.mpr rfl)]
          exact hmatcher
        . rw [if_pos hne]
          exact hreturns

theorem lt_of_latin1 {str : JSLinearString} (h : (!str.hasTwoByteChars) = true) : ∀ c ∈ str.units, c.toNat < 256 := by
  intro c hc
  cases str with
  | twoByte => contradiction
  | latin1 chars =>
    obtain ⟨b, -, rfl⟩ := mem_map.mp hc
    rw [BitVec.toNat_setWidth]
    omega

theorem StringMatch_returns {text pat : JSLinearString} (hstart : start ≤ text.units.length)
    : Returns (StringMatch isI386 text pat start) (Occurs pat.units text.units) start := by
  obtain ⟨r, hr, hleast⟩ : Returns (StringMatchChars isI386 _ _ _ _) (Occurs pat.units (text.units.drop start)) 0 :=
    StringMatchChars_returns (fun h c hc => lt_of_latin1 h c (mem_of_mem_drop hc)) lt_of_latin1
  unfold StringMatch
  rw [if_pos hstart, hr, some_bind]
  refine ⟨r.map (start + ·), ?_, (hleast.congr fun i _ => ?_).shift (p := Occurs pat.units text.units)⟩
  . cases r with
    | none => rfl
    | some n =>
      have hne : indexOf (some n) ≠ -1 := by
        change (n : Int) ≠ -1
        omega
      rw [if_neg hne]
      rfl
  . unfold Occurs
    rw [drop_drop]

section Rope

theorem occurs_append_iff {l l' : List CharT} (hle : i + pat.length ≤ l.length)
    : Occurs pat (l ++ l') i ↔ Occurs pat l i := by
  unfold Occurs
  rw [drop_append_of_le_length (by omega)]
  refine ⟨fun h => prefix_of_prefix_length_le h (prefix_append _ l') ?_, fun h => ?_⟩
  . rw [length_drop]
    omega
  . exact h.trans (prefix_append _ l')

def textFrom (tt : List CharT) (inner : List JSLinearString) : List CharT := tt ++ inner.flatMap JSLinearString.units

theorem follow_spec (pat tt : List CharT) (inner : List JSLinearString)
    : match follow pat tt inner with
      | .matched => pat <+: textFrom tt inner
      | .differs => ¬pat <+: textFrom tt inner
      | .textEnds => (textFrom tt inner).length < pat.length := by
  fun_induction follow pat tt inner with
  | case1 => exact nil_prefix
  | case2 c tt inner p pat hne => exact fun h => hne (cons_prefix_cons.mp h).1
  | case3 c tt inner p pat heq ih =>
    have hcons : textFrom (c :: tt) inner = c :: textFrom tt inner := rfl
    rw [hcons, not_not.mp heq]
    split at ih
    next => exact cons_prefix_cons.mpr ⟨rfl, ih⟩
    next => exact fun h => ih (cons_prefix_cons.mp h).2
    next => exact Nat.succ_lt_succ ih
  | case4 => exact nil_prefix
  | case5 => exact Nat.succ_pos _
  | case6 p pat next inner ih => exact ih

theorem matchAcross_spec {len k : Nat} {inner : List JSLinearString} {t : List CharT}
    (hdrop : text.drop k = textFrom t inner) (hk : k + t.length = len)
    : match matchAcross len p0 p1 inner t with
      | .found index => IsLeastIndex (Occurs (p0 :: p1) text) k (some index)
      | .textEnds => IsLeastIndex (Occurs (p0 :: p1) text) k none
      | .notFound => ∀ i, k ≤ i → i < len → ¬Occurs (p0 :: p1) text i := by
  induction t generalizing k with
  | nil =>
    intro i hi hlt
    rw [length_nil] at hk
    omega
  | cons c t ih =>
    rw [length_cons] at hk
    have hc : text[k]? = some c := by
      rw [← Nat.add_zero k, ← List.getElem?_drop, hdrop]
      rfl
    have hnext : text.drop (k + 1) = textFrom t inner := by
      rw [← drop_drop, hdrop]
      rfl
    have hstep (hno : ¬Occurs (p0 :: p1) text k) : match matchAcross len p0 p1 inner t with
        | .found index => IsLeastIndex (Occurs (p0 :: p1) text) k (some index)
        | .textEnds => IsLeastIndex (Occurs (p0 :: p1) text) k none
        | .notFound => ∀ i, k ≤ i → i < len → ¬Occurs (p0 :: p1) text i := by
      have h := ih hnext (by omega)
      split at h
      next => exact h.step hno
      next => exact h.step hno
      next =>
        intro i hi hlt
        rcases Nat.lt_or_eq_of_le hi with hlt' | rfl
        . exact h i hlt' hlt
        . exact hno
    unfold matchAcross
    by_cases hne : c ≠ p0
    . rw [if_pos hne]
      exact hstep fun h => hne (Option.some.inj (hc.symm.trans (occurs_cons_iff.mp h).1))
    rw [if_neg hne]
    rw [not_not.mp hne] at hc
    have h := follow_spec p1 t inner
    cases hfollow : follow p1 t inner with
    | matched =>
      rw [hfollow, ← hnext] at h
      have hindex : len - t.length - 1 = k := by omega
      dsimp only
      rw [hindex]
      exact .here (occurs_cons_iff.mpr ⟨hc, h⟩)
    | textEnds =>
      rw [hfollow, ← hnext, length_drop] at h
      refine .nowhere fun i hi hoccurs => ?_
      have hle := hoccurs.le_length (cons_ne_nil p0 p1)
      rw [length_cons] at hle
      dsimp only at h
      omega
    | differs =>
      rw [hfollow, ← hnext] at h
      exact hstep fun hoccurs => h (occurs_cons_iff.mp hoccurs).2

theorem RopeMatchImpl_spec {strings : List JSLinearString} {pos : Nat}
    (hstrings : ∀ s ∈ strings, (!s.hasTwoByteChars) = textIsLatin1)
    (hpat : patIsLatin1 = true → ∀ c ∈ p0 :: p1, c.toNat < 256)
    : ∃ r, RopeMatchImpl isI386 textIsLatin1 patIsLatin1 (p0 :: p1) strings pos = some (indexOf (r.map (pos + ·)))
      ∧ IsLeastIndex (Occurs (p0 :: p1) (strings.flatMap JSLinearString.units)) 0 r := by
  induction strings generalizing pos with
  | nil =>
    refine ⟨none, rfl, .nowhere fun i _ h => ?_⟩
    have hle := h.le_length (cons_ne_nil p0 p1)
    rw [length_cons] at hle
    exact absurd hle (Nat.not_le.mpr (Nat.succ_pos _))
  | cons outer strings ih =>
    obtain ⟨houter, hstrings⟩ := forall_mem_cons.mp hstrings
    obtain ⟨r, hr, hleast⟩ : Returns (StringMatchChars isI386 textIsLatin1 patIsLatin1 outer.units (p0 :: p1)) _ 0 :=
      StringMatchChars_returns (fun h => lt_of_latin1 (houter.trans h)) hpat
    have htext : (outer :: strings).flatMap JSLinearString.units = textFrom outer.units strings := flatMap_cons
    have hwithin {i : Nat} (hi : i + (p0 :: p1).length ≤ outer.units.length)
        : Occurs (p0 :: p1) (textFrom outer.units strings) i ↔ Occurs (p0 :: p1) outer.units i := occurs_append_iff hi
    unfold RopeMatchImpl
    rw [htext]
    dsimp only
    rw [hr, some_bind]
    cases r with
    | some n =>
      obtain ⟨-, hn⟩ := hleast.found n rfl
      have hle := hn.le_length (cons_ne_nil p0 p1)
      have hne : indexOf (some n) ≠ -1 := by
        change (n : Int) ≠ -1
        omega
      rw [if_pos hne]
      refine ⟨some n, rfl, ?_, fun i hi h => ?_⟩
      . rintro _ ⟨⟩
        exact ⟨Nat.zero_le n, (hwithin hle).mpr hn⟩
      by_cases hlt : i < n
      . exact hleast.least i hi ((hwithin (by omega)).mp h)
      . exact ⟨n, rfl, Nat.not_lt.mp hlt⟩
    | none =>
      have hno (i : Nat) (hi : i + (p0 :: p1).length ≤ outer.units.length)
          : ¬Occurs (p0 :: p1) (textFrom outer.units strings) i := by
        intro h
        obtain ⟨_, hnone, -⟩ := hleast.least i (Nat.zero_le i) ((hwithin hi).mp h)
        contradiction
      obtain ⟨k, hk⟩ : ∃ k, k = if (p0 :: p1).length > outer.units.length then 0
          else outer.units.length - (p0 :: p1).length + 1 := ⟨_, rfl⟩
      have hle : k ≤ outer.units.length ∧ ∀ i < k, i + (p0 :: p1).length ≤ outer.units.length := by
        rw [length_cons] at hk ⊢
        split at hk
        next => exact ⟨by omega, by omega⟩
        next => exact ⟨by omega, by omega⟩
      have hacross := @matchAcross_spec (textFrom outer.units strings) p1 p0 outer.units.length k strings (outer.units.drop k)
        (drop_append_of_le_length hle.1) (by rw [length_drop]; omega)
      have hminus : ¬indexOf none ≠ -1 := not_not.mpr rfl
      rw [if_neg hminus, ← hk, List.getElem?_cons_zero, some_bind, drop_one, tail_cons]
      split
      next index hindex =>
        rw [hindex] at hacross
        exact ⟨some index, rfl, hacross.skip (Nat.zero_le k) fun i _ hi => hno i (hle.2 i hi)⟩
      next hends =>
        rw [hends] at hacross
        exact ⟨none, rfl, hacross.skip (Nat.zero_le k) fun i _ hi => hno i (hle.2 i hi)⟩
      next hnotFound =>
        rw [hnotFound] at hacross
        obtain ⟨r, hr, hrest⟩ := @ih (pos + outer.units.length) hstrings
        refine ⟨r.map (outer.units.length + ·), ?_, ?_⟩
        . rw [hr, Option.map_map]
          congr 3
          funext i
          exact Nat.add_assoc ..
        have hshift : IsLeastIndex (Occurs (p0 :: p1) (textFrom outer.units strings)) (outer.units.length + 0)
            (r.map (outer.units.length + ·)) := by
          apply IsLeastIndex.shift (hrest.congr fun i _ => ?_)
          unfold Occurs textFrom
          rw [← drop_drop, drop_left' rfl]
        refine hshift.skip (Nat.zero_le _) fun i _ hi => ?_
        by_cases hik : i < k
        . exact hno i (hle.2 i hik)
        . exact hacross i (Nat.not_lt.mp hik) hi

theorem ensureLinear_units (text : JSRope)
    : text.ensureLinear.units = text.units := by
  unfold JSRope.ensureLinear
  split
  next hlatin1 =>
    change (text.units.map _).map _ = _
    rw [map_map]
    refine (map_congr_left fun c hc => ?_).trans (map_id _)
    apply BitVec.eq_of_toNat_eq
    rw [Function.comp_apply, BitVec.toNat_setWidth, BitVec.toNat_setWidth, id_eq]
    have := text.lt_of_hasLatin1Chars hlatin1 c hc
    omega
  next => rfl

theorem settle_spec {mem : Memory} {stack : List JSString} {str : JSString}
    : match settle mem stack str with
      | none => ∃ n, mem.stack n = false
      | some (stack', cur) => cur.units ++ stack'.flatMap JSString.units = str.units ++ stack.flatMap JSString.units := by
  induction str generalizing stack with
  | linear str => rfl
  | rope left right ihleft _ =>
    unfold settle
    split
    next hnone =>
      split at hnone
      next =>
        have h := @ihleft (right :: stack)
        rw [hnone] at h
        exact h
      next hrefused => exact ⟨_, Bool.not_eq_true _ ▸ hrefused⟩
    next stack' cur hsome =>
      split at hsome
      next =>
        have h := @ihleft (right :: stack)
        rw [hsome] at h
        rw [h, flatMap_cons, ← append_assoc]
        rfl
      next => contradiction

theorem segments_spec {mem : Memory} {threshold : Nat} {stack : List JSString} {cur : Option JSLinearString}
    {strings : List JSLinearString} (hstrings : ∀ s ∈ strings, (!s.hasTwoByteChars) = textIsLatin1)
    (hcur : cur = none → stack = [])
    : match segments mem textIsLatin1 threshold stack cur strings with
      | .outOfMemory => ∃ n, mem.stack n = false
      | .needsLinear => True
      | .strings strings' => (∀ s ∈ strings', (!s.hasTwoByteChars) = textIsLatin1)
        ∧ strings'.flatMap JSLinearString.units
          = (strings ++ cur.toList).flatMap JSLinearString.units ++ stack.flatMap JSString.units := by
  induction threshold generalizing stack cur strings with
  | zero =>
    cases cur with
    | none =>
      rw [hcur rfl]
      exact ⟨hstrings, by rw [Option.toList_none, append_nil, flatMap_nil, append_nil]⟩
    | some front => exact trivial
  | succ threshold ih =>
    cases cur with
    | none =>
      rw [hcur rfl]
      exact ⟨hstrings, by rw [Option.toList_none, append_nil, flatMap_nil, append_nil]⟩
    | some front =>
      unfold segments
      by_cases hleave : (!front.hasTwoByteChars) ≠ textIsLatin1 ∨ mem.strings strings.length = false
      . rw [if_pos hleave]
        exact trivial
      rw [if_neg hleave]
      have hstrings' : ∀ s ∈ strings ++ [front], (!s.hasTwoByteChars) = textIsLatin1 := by
        intro s hs
        rcases mem_append.mp hs with hs | hs
        . exact hstrings s hs
        . rw [mem_singleton.mp hs]
          exact not_not.mp fun h => hleave (.inl h)
      cases stack with
      | nil =>
        have h := @ih [] none (strings ++ [front]) hstrings' fun _ => rfl
        rwa [Option.toList_none, append_nil] at h
      | cons top stack =>
        have hsettle := @settle_spec mem stack top
        dsimp only
        cases hsome : settle mem stack top with
        | none =>
          rw [hsome] at hsettle
          exact hsettle
        | some settled =>
          obtain ⟨stack', cur⟩ := settled
          rw [hsome] at hsettle
          have h := @ih stack' (some cur) (strings ++ [front]) hstrings' nofun
          rw [Option.toList_some, flatMap_append, flatMap_singleton, append_assoc, hsettle] at h
          exact h

theorem RopeMatch_returns {mem : Memory} {text : JSRope} {pat : JSLinearString}
    : RopeMatch isI386 mem text pat = some none ∧ ((∃ n, mem.stack n = false) ∨ mem.linear = false)
      ∨ ∃ r, RopeMatch isI386 mem text pat = some (some (indexOf r))
        ∧ IsLeastIndex (Occurs pat.units text.units) 0 r := by
  unfold RopeMatch
  cases hpat : pat.units with
  | nil => exact .inr ⟨some 0, rfl, .here nil_prefix⟩
  | cons p0 p1 =>
    have hne : (p0 :: p1).length ≠ 0 := Nat.succ_ne_zero _
    rw [if_neg hne]
    split
    next hlt =>
      refine .inr ⟨none, rfl, .nowhere fun i _ h => ?_⟩
      have := h.le_length (cons_ne_nil p0 p1)
      omega
    next =>
      have hsettle := @settle_spec mem [] (.rope text.left text.right)
      dsimp only
      cases hfirst : settle mem [] (.rope text.left text.right) with
      | none =>
        rw [hfirst] at hsettle
        exact .inl ⟨rfl, .inl hsettle⟩
      | some settled =>
        obtain ⟨stack, cur⟩ := settled
        rw [hfirst] at hsettle
        have hsegments := @segments_spec text.hasLatin1Chars mem (text.units.length >>> sRopeMatchThresholdRatioLog2)
          stack (some cur) [] (fun _ hs => nomatch hs) nofun
        dsimp only
        split
        next hsome =>
          rw [hsome] at hsegments
          exact .inl ⟨rfl, .inl hsegments⟩
        next =>
          split
          next =>
            obtain ⟨r, hr, hleast⟩ := @StringMatch_returns 0 isI386 text.ensureLinear pat (Nat.zero_le _)
            rw [hr]
            rw [ensureLinear_units, hpat] at hleast
            exact .inr ⟨r, rfl, hleast⟩
          next hrefused => exact .inl ⟨rfl, .inr (Bool.not_eq_true _ ▸ hrefused)⟩
        next strings hsome =>
          rw [hsome] at hsegments
          obtain ⟨hstrings, hunits⟩ := hsegments
          obtain ⟨r, hr, hleast⟩ := @RopeMatchImpl_spec p1 p0 isI386 text.hasLatin1Chars (!pat.hasTwoByteChars) strings 0
            hstrings (hpat ▸ lt_of_latin1)
          refine .inr ⟨r, ?_, ?_⟩
          . rw [hr]
            cases r with
            | none => rfl
            | some n => exact congrArg (some <| some <| indexOf <| some ·) (Nat.zero_add n)
          . rw [hunits, Option.toList_some, nil_append, flatMap_singleton, hsettle, flatMap_nil, append_nil] at hleast
            exact hleast

theorem RopeMatch_eq {mem : Memory} {text : JSRope} {pat : JSLinearString}
    : RopeMatch isI386 mem text pat = some none ∧ ((∃ n, mem.stack n = false) ∨ mem.linear = false)
      ∨ RopeMatch isI386 mem text pat = some <$> StringMatch isI386 text.ensureLinear pat 0 := by
  rcases @RopeMatch_returns isI386 mem text pat with hnone | ⟨r, hr, hleast⟩
  . exact .inl hnone
  obtain ⟨r', hr', hleast'⟩ := @StringMatch_returns 0 isI386 text.ensureLinear pat (Nat.zero_le _)
  rw [ensureLinear_units] at hleast'
  rw [hr, hr', hleast.unique hleast']
  exact .inr rfl

end Rope

section LastIndexOf

theorem lastIndexFrom_spec (ht : t + (p1.length + 1) ≤ text.length)
    : ∃ r, lastIndexFrom text (p0 :: p1) p0 t = some (indexOf r) ∧ IsGreatestIndex (Occurs (p0 :: p1) text) t r := by
  have hlength : (p0 :: p1).length - 1 = p1.length := rfl
  have hp1 : ((p0 :: p1).drop 1).take p1.length = p1 := take_length
  have hmatches (t : Nat) (ht : t + (p1.length + 1) ≤ text.length)
      : ∃ c b, text[t]? = some c ∧ (Occurs (p0 :: p1) text t ↔ b = true)
        ∧ (if c = p0 then manualCmp text (p0 :: p1) ((p0 :: p1).length - 1) 1 (t + 1) else pure false) = some b := by
    obtain ⟨c, hc⟩ : ∃ c, text[t]? = some c := ⟨_, List.getElem?_eq_getElem (by omega)⟩
    rw [occurs_cons_iff, hc, Option.some_inj]
    by_cases heq : c = p0
    . have hfits : t + 1 + ((p0 :: p1).length - 1) ≤ text.length := by
        rw [hlength]
        omega
      refine ⟨c, _, rfl, ?_, (if_pos heq).trans (manualCmp_eq (Nat.le_of_eq (Nat.add_comm ..)) hfits)⟩
      rw [hlength, hp1, decide_eq_true_iff, prefix_iff_eq_take, and_iff_right heq]
    . exact ⟨c, false, rfl, iff_of_false (fun h => heq h.1) Bool.false_ne_true, if_neg heq⟩
  induction t with
  | zero =>
    obtain ⟨c, b, hc, hoccurs, hb⟩ := hmatches 0 ht
    unfold lastIndexFrom
    dsimp only
    rw [hc, some_bind, hb, some_bind]
    cases b with
    | true => exact ⟨some 0, rfl, .here (hoccurs.mpr rfl)⟩
    | false => exact ⟨none, rfl, .zero fun h => nomatch hoccurs.mp h⟩
  | succ t ih =>
    obtain ⟨c, b, hc, hoccurs, hb⟩ := hmatches (t + 1) ht
    unfold lastIndexFrom
    dsimp only
    rw [hc, some_bind, hb, some_bind]
    cases b with
    | true => exact ⟨some (t + 1), rfl, .here (hoccurs.mpr rfl)⟩
    | false =>
      obtain ⟨r, hr, hgreatest⟩ := ih (by omega)
      exact ⟨r, hr, hgreatest.step fun h => nomatch hoccurs.mp h⟩

theorem LastIndexOfImpl_spec (hstart : start + pat.length ≤ text.length) (hne : pat ≠ [])
    : ∃ r, LastIndexOfImpl text pat start = some (indexOf r) ∧ IsGreatestIndex (Occurs pat text) start r := by
  obtain ⟨p0, p1, rfl⟩ := exists_cons_of_ne_nil hne
  unfold LastIndexOfImpl
  rw [if_pos ⟨by omega, by omega⟩]
  exact lastIndexFrom_spec hstart

end LastIndexOf

-- The search backwards is given a pattern that is not empty, and a start from which the pattern fits.
theorem stringSearch_exact (isI386 : Bool)
    : (∀ (text pat : JSLinearString) (start : Fin (text.units.length + 1)),
        ∃ r, StringMatch isI386 text pat start = some (indexOf r) ∧ IsLeastIndex (Occurs pat.units text.units) start r)
      ∧ (∀ (mem : Memory) (text : JSRope) (pat : JSLinearString),
        RopeMatch isI386 mem text pat = some none ∧ ((∃ n, mem.stack n = false) ∨ mem.linear = false)
          ∨ RopeMatch isI386 mem text pat = some <$> StringMatch isI386 text.ensureLinear pat 0)
      ∧ ∀ (pat : { pat : List CharT // pat ≠ [] }) (text : { text : List CharT // pat.1.length ≤ text.length })
          (start : Fin (text.1.length - pat.1.length + 1)),
        ∃ r, LastIndexOfImpl text.1 pat.1 start = some (indexOf r) ∧ IsGreatestIndex (Occurs pat.1 text.1) start r := by
  refine ⟨fun text pat start => ?_, fun mem text pat => ?_, fun pat text start => ?_⟩
  . exact StringMatch_returns (Nat.le_of_lt_succ start.2)
  . exact RopeMatch_eq
  . have hfits := text.2
    exact LastIndexOfImpl_spec (by omega) pat.2

end SpiderMonkey.StringSearch
