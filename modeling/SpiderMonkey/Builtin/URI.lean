import SpiderMonkey.Builtin.Lemmas.URI

/-!
This module contains the round trips of `encodeURI` and `escape`, and what it is that `decodeURI` accepts.
-/

namespace SpiderMonkey.URI

open List
open JSON (IsLeadSurrogate IsTrailSurrogate JSLinearString)
open CharacterEncoding (NonBMPMin LeadSurrogateMin TrailSurrogateMin TrailSurrogateMax IsSurrogate)
open Utf8

variable {granted : Nat → Bool} {set : Option (CharT → Bool)} {chars sb out w v : List CharT} {k startAppend : Nat}
variable {c : CharT}

-- What a string stands for that is made of units other than `%` and of the escapes of UTF-8 sequences.
inductive Decodes (reservedSet : Option (CharT → Bool)) : List CharT → List CharT → Prop where
  | nil : Decodes reservedSet [] []
  | unit {c : CharT} {w v : List CharT}
    : c ≠ '%' → Decodes reservedSet w v → Decodes reservedSet (c :: w) (c :: v)
  | escapes {c : Nat} {w v : List CharT}
    : IsScalarValue c → encode c <+: octets w → Decodes reservedSet (w.drop (3 * (encode c).length)) v
      → Decodes reservedSet w (valueAt reservedSet w c ++ v)

theorem octets_of_ne (h : c ≠ '%') : octets (c :: w) = [] := by
  rcases w with _ | ⟨_, _ | ⟨_, _⟩⟩
  . rfl
  . rfl
  . exact if_neg fun hc => h hc.1

theorem decodes_cons_iff (h : c ≠ '%') : Decodes set (c :: w) v ↔ ∃ v', v = c :: v' ∧ Decodes set w v' := by
  constructor
  . intro hdecodes
    cases hdecodes with
    | unit _ hw => exact ⟨_, rfl, hw⟩
    | escapes _ hstart _ =>
      rw [octets_of_ne h, prefix_nil] at hstart
      exact absurd hstart encode_ne_nil
  . rintro ⟨v', rfl, hw⟩
    exact .unit h hw

theorem decodes_escapes_iff {c : Nat} (hc : IsScalarValue c) (hstart : encode c <+: octets w)
    : Decodes set w v ↔ ∃ v', v = valueAt set w c ++ v' ∧ Decodes set (w.drop (3 * (encode c).length)) v' := by
  constructor
  . intro hdecodes
    cases hdecodes with
    | nil => exact absurd (prefix_nil.mp hstart) encode_ne_nil
    | unit hne _ =>
      rw [octets_of_ne hne, prefix_nil] at hstart
      exact absurd hstart encode_ne_nil
    | escapes hc' hstart' hrest =>
      obtain rfl := encode_prefix_unique hc'.1 hc.1 hstart' hstart
      exact ⟨_, rfl, hrest⟩
  . rintro ⟨v', rfl, hrest⟩
    exact .escapes hc hstart hrest

theorem drop_eq_cons (hc : chars[k]? = some c) : chars.drop k = c :: chars.drop (k + 1) := by
  obtain ⟨hlt, rfl⟩ := List.getElem?_eq_some_iff.mp hc
  exact drop_eq_getElem_cons hlt

theorem Built.keepUnit (h : Built chars sb startAppend k out) (hc : chars[k]? = some c)
    : Built chars sb startAppend (k + 1) (out ++ [c]) := by
  obtain ⟨hlt, -⟩ := List.getElem?_eq_some_iff.mp hc
  have := h.keep (n := 1) hlt
  rwa [drop_eq_cons hc, take_succ_cons, take_zero] at this

theorem decodeLoop_ends (hrounds : chars.length - k < rounds) (h : Built chars sb startAppend k out)
    (hout : out.length ≤ k)
    : Ends (decodeLoop granted set chars rounds sb startAppend k)
        (fun r => ∃ v, Built chars r.1 r.2 chars.length (out ++ v) ∧ (out ++ v).length ≤ chars.length
          ∧ ∀ v', Decodes set (chars.drop k) v' ↔ v' = v)
        (Fails granted (¬∃ v, Decodes set (chars.drop k) v) chars.length) := by
  induction rounds generalizing sb startAppend k out with
  | zero => omega
  | succ rounds ih =>
    have hle := h.le_length
    unfold decodeLoop
    refine .ite (fun hlt => ?_) fun hge => ?_
    . obtain ⟨c, hc⟩ : ∃ c, chars[k]? = some c := ⟨_, List.getElem?_eq_getElem hlt⟩
      have hdrop := drop_eq_cons hc
      refine (read_ends hc _).bind fun c hc' => ?_
      subst hc'
      refine .ite (fun hpercent => ?_) fun hne => ?_
      . refine ((decodeEscape_ends h rfl (by rw [hdrop, hpercent]; rfl) hout le_rfl).mono (fun _ h => h)
          fun e he => he.mono ?_ le_rfl).bind fun r hr => ?_
        . rintro hnot ⟨v, hdecodes⟩
          rw [hdrop] at hdecodes hnot
          generalize hw : c :: chars.drop (k + 1) = w at hdecodes hnot
          cases hdecodes with
          | nil => contradiction
          | unit hne _ =>
            cases hw
            exact hne hpercent
          | escapes hc hstart _ => exact hnot ⟨_, hc, hstart⟩
        obtain ⟨sb, startAppend, k'⟩ := r
        obtain ⟨c, hscalar, hstart, hk', hbuilt⟩ := hr
        dsimp only at hk' hbuilt ⊢
        have hpos := length_pos_iff.mpr (@encode_ne_nil c)
        have hvalue : (valueAt set (chars.drop k) c).length ≤ 3 * (encode c).length := length_valueAt
        refine (ih (by omega) hbuilt (by rw [length_append]; omega)).mono (fun r hr => ?_) fun e he => he.mono ?_ le_rfl
        . obtain ⟨v, hfinal, hlength, hv⟩ := hr
          refine ⟨_, append_assoc .. ▸ hfinal, append_assoc .. ▸ hlength, fun v' => ?_⟩
          rw [decodes_escapes_iff hscalar hstart, drop_drop, ← hk']
          simp only [hv, exists_eq_right]
        rintro hnone ⟨v, hdecodes⟩
        rw [decodes_escapes_iff hscalar hstart, drop_drop, ← hk'] at hdecodes
        obtain ⟨v', -, hdecodes⟩ := hdecodes
        exact hnone ⟨v', hdecodes⟩
      . refine (ih (by omega) (h.keepUnit hc) (by rw [length_append, length_singleton]; omega)).mono (fun r hr => ?_)
          fun e he => he.mono ?_ le_rfl
        . obtain ⟨v, hfinal, hlength, hv⟩ := hr
          refine ⟨c :: v, ?_, ?_, fun v' => ?_⟩
          . rwa [append_assoc] at hfinal
          . rwa [append_assoc] at hlength
          . rw [hdrop, decodes_cons_iff hne]
            simp only [hv, exists_eq_right]
        . rintro hnone ⟨v, hdecodes⟩
          rw [hdrop, decodes_cons_iff hne] at hdecodes
          obtain ⟨v', -, hdecodes⟩ := hdecodes
          exact hnone ⟨v', hdecodes⟩
    . obtain rfl : k = chars.length := by omega
      refine ⟨[], by rwa [append_nil], by rwa [append_nil], fun v' => ?_⟩
      rw [drop_length]
      constructor
      . intro hdecodes
        generalize hw : ([] : List CharT) = w at hdecodes
        cases hdecodes with
        | nil => rfl
        | unit => contradiction
        | escapes _ hstart _ =>
          rw [← hw] at hstart
          exact absurd (prefix_nil.mp hstart) encode_ne_nil
      . rintro rfl
        exact .nil

theorem Decode_ends (granted : Nat → Bool) (set : Option (CharT → Bool)) (chars : List CharT)
    : Ends (Decode granted chars set) (fun v => ∀ v', Decodes set chars v' ↔ v' = v)
        (Fails granted (¬∃ v, Decodes set chars v) chars.length) := by
  have hloop := @decodeLoop_ends granted set _ _ _ _ _ _ (Nat.lt_succ_self _) (@Built.start chars) le_rfl
  rw [drop_zero] at hloop
  unfold Decode
  refine .ite (fun hempty => ?_) fun _ => hloop.bind fun r hr => ?_
  . rw [length_eq_zero_iff.mp hempty] at hloop ⊢
    obtain ⟨v, -, hlength, hv⟩ := hloop
    obtain rfl : v = [] := length_eq_zero_iff.mp (Nat.le_zero.mp hlength)
    exact hv
  obtain ⟨v, hbuilt, hlength, hv⟩ := hr
  refine (hbuilt.transfer false hlength nofun).mono (fun v' hv' => ?_) fun _ he => he
  rw [hv']
  exact hv

section Encode

theorem isSurrogate_iff : IsSurrogate n = true ↔ 0xD800 ≤ n ∧ n ≤ 0xDFFF := by
  unfold IsSurrogate
  rw [Bool.and_eq_true, decide_eq_true_iff, decide_eq_true_iff]
  exact Iff.rfl

theorem isLeadSurrogate_iff : IsLeadSurrogate c = true ↔ 0xD800 ≤ c.toNat ∧ c.toNat ≤ 0xDBFF := by
  rw [IsLeadSurrogate, Bool.and_eq_true, decide_eq_true_iff, decide_eq_true_iff]

theorem isTrailSurrogate_iff : IsTrailSurrogate c = true ↔ 0xDC00 ≤ c.toNat ∧ c.toNat ≤ 0xDFFF := by
  rw [IsTrailSurrogate, Bool.and_eq_true, decide_eq_true_iff, decide_eq_true_iff]

theorem paired_utf16_append {v : Nat} (hv : IsScalarValue v) (t : List CharT) : Paired (utf16 v ++ t) ↔ Paired t := by
  unfold IsScalarValue at hv
  unfold utf16
  split
  next hlt =>
    have hnat := toNat_ofNat_unit (n := v) hlt
    constructor
    . intro h
      cases h with
      | unit _ h => exact h
      | pair hlead _ _ =>
        rw [isLeadSurrogate_iff, hnat] at hlead
        omega
    . refine .unit ?_
      rw [hnat, isSurrogate_iff]
      omega
  next hge =>
    have hlead := toNat_ofNat_unit (n := 0xD800 + (v - 0x10000) / 1024) (by omega)
    have htrail := toNat_ofNat_unit (n := 0xDC00 + (v - 0x10000) % 1024) (by omega)
    generalize BitVec.ofNat 16 (0xD800 + (v - 0x10000) / 1024) = lead at hlead ⊢
    generalize BitVec.ofNat 16 (0xDC00 + (v - 0x10000) % 1024) = trail at htrail ⊢
    constructor
    . intro h
      cases h with
      | unit hnot _ =>
        rw [hlead, isSurrogate_iff] at hnot
        omega
      | pair _ _ h => exact h
    . refine .pair ?_ ?_
      . rw [isLeadSurrogate_iff, hlead]
        omega
      . rw [isTrailSurrogate_iff, htrail]
        omega

theorem eq_ofNat_unit (h : c.toNat = n) : BitVec.ofNat 16 n = c := by
  rw [← h, BitVec.ofNat_toNat, BitVec.setWidth_eq]

structure Starts (w : List CharT) (k : Nat) (v last : Nat) : Prop where
  isScalarValue : IsScalarValue v
  isPrefix : utf16 v <+: w
  last_eq : last + 1 = k + (utf16 v).length

theorem Starts.of_unit (hc : ¬(0xD800 ≤ c.toNat ∧ c.toNat ≤ 0xDFFF)) : Starts (c :: w) k c.toNat k := by
  have hlt := c.isLt
  have hutf16 : utf16 c.toNat = [c] := by
    rw [utf16, if_pos hlt, eq_ofNat_unit rfl]
  refine ⟨⟨by omega, hc⟩, ?_, ?_⟩
  . rw [hutf16]
    exact prefix_append [c] w
  . rw [hutf16]
    rfl

theorem readCodePoint_ends (h : chars.drop k = c :: w)
    : Ends (readCodePoint chars k c) (fun r => Starts (c :: w) k r.1 r.2) fun e => e = .BadUri ∧ ¬Paired (c :: w) := by
  have hlength := congrArg List.length h
  rw [length_drop, length_cons] at hlength
  have hunpaired (hsurrogate : 0xD800 ≤ c.toNat ∧ c.toNat ≤ 0xDFFF)
      (hnext : ∀ d, w[0]? = some d → IsLeadSurrogate c → ¬IsTrailSurrogate d) : ¬Paired (c :: w) := by
    intro hpaired
    cases hpaired with
    | unit hnot _ => exact hnot (isSurrogate_iff.mpr hsurrogate)
    | pair hc hd _ => exact hnext _ rfl hc hd
  unfold readCodePoint
  refine .ite (fun hc => ⟨rfl, hunpaired ?_ fun _ _ hc' => ?_⟩) fun hnot => .ite (fun hunit => ?_) fun hc =>
    .ite (fun hend => ⟨rfl, hunpaired ?_ fun d hd => ?_⟩) fun hend => ?_
  . rw [isTrailSurrogate_iff] at hc
    omega
  . rw [isTrailSurrogate_iff] at hc
    rw [isLeadSurrogate_iff] at hc'
    omega
  . rw [Bool.not_eq_true', ← Bool.not_eq_true, isLeadSurrogate_iff] at hunit
    rw [isTrailSurrogate_iff] at hnot
    exact .of_unit (by omega)
  . rw [Bool.not_eq_true', Bool.not_eq_false, isLeadSurrogate_iff] at hc
    omega
  . rw [eq_nil_of_length_eq_zero (by omega : w.length = 0)] at hd
    contradiction
  rw [Bool.not_eq_true', Bool.not_eq_false, isLeadSurrogate_iff] at hc
  obtain ⟨d, hd⟩ : ∃ d, chars[k + 1]? = some d := ⟨_, List.getElem?_eq_getElem (by omega)⟩
  have hd' : w[0]? = some d := by rw [← hd, getElem?_of_drop h]; rfl
  refine (read_ends hd _).bind fun d heq => ?_
  subst heq
  refine .ite (fun hnot => ⟨rfl, hunpaired (by omega) fun d' hd'' _ hd => ?_⟩) fun hd => ?_
  . rw [hd'] at hd''
    cases hd''
    rw [hd] at hnot
    contradiction
  rw [Bool.not_eq_true', Bool.not_eq_false, isTrailSurrogate_iff] at hd
  obtain ⟨w, rfl⟩ : ∃ w', w = d :: w' := by
    rcases w with _ | ⟨_, w⟩
    . contradiction
    . cases hd'
      exact ⟨w, rfl⟩
  have hvalue : UTF16Decode c d = 0x10000 + (c.toNat - 0xD800) * 1024 + (d.toNat - 0xDC00) := by
    simp only [UTF16Decode, NonBMPMin, LeadSurrogateMin, TrailSurrogateMin, Nat.shiftLeft_eq]
    omega
  have hutf16 : utf16 (UTF16Decode c d) = [c, d] := by
    rw [hvalue, utf16, if_neg (by omega), @eq_ofNat_unit c _ (by omega), @eq_ofNat_unit d _ (by omega)]
  refine ⟨⟨by omega, by omega⟩, ?_, ?_⟩
  . rw [hutf16]
    exact prefix_append [c, d] w
  . rw [hutf16]
    rfl

theorem length_encode_le (v : Nat) : (encode v).length ≤ 3 * (utf16 v).length := by
  unfold encode utf16
  split_ifs <;> simp only [length_cons, length_nil] <;> omega

theorem encodeUnit_ends {isLatin1 : Bool} (h : chars.drop k = c :: w) (hlatin1 : isLatin1 = true → c.toNat < 256)
    (hn : sb.length + 9 * (chars.length - k) ≤ n)
    : Ends (encodeUnit granted isLatin1 chars sb k c)
        (fun r => ∃ v, Starts (c :: w) k v r.2 ∧ r.1 = sb ++ (encode v).flatMap escapeOctet)
        (Fails granted (¬Paired (c :: w)) n) := by
  have hlength := congrArg List.length h
  rw [length_drop, length_cons] at hlength
  have hthree (b : BitVec 8) : (escapeOctet b).length = 3 := rfl
  unfold encodeUnit
  refine .ite (fun hisLatin1 => ?_) fun _ => ?_
  . have hlt := hlatin1 hisLatin1
    have hstarts : Starts (c :: w) k c.toNat k := .of_unit (by omega)
    have hnat : (c.setWidth 8).toNat = c.toNat := by
      rw [BitVec.toNat_setWidth]
      omega
    refine .ite (fun hascii => ?_) fun hnot => ?_
    . refine (append_ends (w := escapeOctet (c.setWidth 8)) (by rw [hthree]; omega)).bind fun _ hsb => ?_
      have hencode := encode_toNat (b := c.setWidth 8) (by omega)
      rw [hnat] at hencode
      refine ⟨c.toNat, hstarts, ?_⟩
      rw [hsb, hencode, flatMap_singleton]
    have hencode : encode c.toNat = [0xC0 ||| (c >>> 6).setWidth 8, 0x80 ||| (c &&& 0x3F).setWidth 8] := by
      have hall : ∀ b : BitVec 8, 0x80 ≤ b.toNat → encode b.toNat = [0xC0 ||| (b.setWidth 16 >>> 6).setWidth 8,
          0x80 ||| (b.setWidth 16 &&& 0x3F).setWidth 8] := by
        decide
      have := hall (c.setWidth 8) (by omega)
      rwa [hnat, @BitVec.eq_of_toNat_eq _ ((c.setWidth 8).setWidth 16) c
        (by rw [BitVec.toNat_setWidth, hnat]; omega)] at this
    refine (append_ends (w := escapeOctet _) (by rw [hthree]; omega)).bind fun _ hsb => ?_
    subst hsb
    refine (append_ends (w := escapeOctet _) (by rw [length_append, hthree, hthree]; omega)).bind fun _ hsb => ?_
    refine ⟨c.toNat, hstarts, ?_⟩
    rw [hsb, hencode, append_assoc]
    rfl
  . refine ((readCodePoint_ends h).mono (fun _ hr => hr) ?_).bind fun r hr => ?_
    . rintro e ⟨rfl, hnot⟩
      exact hnot
    obtain ⟨v, last⟩ := r
    dsimp only at hr ⊢
    have hle := hr.isPrefix.length_le
    rw [length_cons] at hle
    have hsize := length_encode_le v
    rw [OneUcs4ToUtf8Char_eq hr.isScalarValue.1]
    exact (appendEncoded_all (by omega)).bind fun _ hsb => ⟨v, hr, hsb⟩

theorem encodeLoop_ends {isLatin1 : Bool} {rounds : Nat} (hset : set.any (· (unit '%')) = false)
    (hlatin1 : isLatin1 = true → ∀ c ∈ chars, c.toNat < 256) (hrounds : chars.length - k < rounds)
    (h : Built chars sb startAppend k out) (hout : out.length ≤ 9 * k)
    : Ends (encodeLoop granted isLatin1 set chars rounds sb startAppend k)
        (fun r => ∃ w, Built chars r.1 r.2 chars.length (out ++ w) ∧ (out ++ w).length ≤ 9 * chars.length
          ∧ Decodes set w (chars.drop k) ∧ Paired (chars.drop k))
        (Fails granted (¬Paired (chars.drop k)) (9 * chars.length)) := by
  induction rounds generalizing sb startAppend k out with
  | zero => omega
  | succ rounds ih =>
    have hle := h.le_length
    unfold encodeLoop
    refine .ite (fun hlt => ?_) fun hge => ?_
    . obtain ⟨c, hc⟩ : ∃ c, chars[k]? = some c := ⟨_, List.getElem?_eq_getElem hlt⟩
      have hdrop := drop_eq_cons hc
      refine (read_ends hc _).bind fun c hc' => ?_
      subst hc'
      refine .ite (fun hunescaped => ?_) fun hescaped => ?_
      . have hascii : c.toNat < 128 := by
          rw [Bool.and_eq_true] at hunescaped
          exact of_decide_eq_true hunescaped.1
        have hne : c ≠ '%' := by
          rintro rfl
          rw [hset] at hunescaped
          revert hunescaped
          decide
        have hpaired : Paired (chars.drop k) ↔ Paired (chars.drop (k + 1)) := by
          have := paired_utf16_append (v := c.toNat) ⟨by omega, by omega⟩ (chars.drop (k + 1))
          rwa [utf16, if_pos (by omega), eq_ofNat_unit rfl, singleton_append, ← hdrop] at this
        refine (ih (by omega) (h.keepUnit hc) (by rw [length_append, length_singleton]; omega)).mono (fun r hr => ?_)
          fun e he => he.mono (mt hpaired.mp) le_rfl
        obtain ⟨w, hfinal, hlength, hdecodes, hrest⟩ := hr
        rw [append_assoc] at hfinal hlength
        refine ⟨c :: w, hfinal, hlength, ?_, hpaired.mpr hrest⟩
        rw [hdrop]
        exact .unit hne hdecodes
      refine (h.flush true (by omega) fun _ => by omega).bind fun out hsb => ?_
      subst hsb
      have hunit : Ends (encodeUnit granted isLatin1 chars out k c) _ (Fails granted _ (9 * chars.length)) :=
        encodeUnit_ends hdrop (fun h => hlatin1 h c (mem_of_getElem? hc)) (by omega)
      rw [← hdrop] at hunit
      refine hunit.bind fun r hr => ?_
      obtain ⟨sb', last⟩ := r
      obtain ⟨v, hstarts, hsb'⟩ := hr
      dsimp only at hstarts hsb' ⊢
      subst hsb'
      have hlast := hstarts.last_eq
      have hpos := length_pos_iff.mpr (@utf16_ne_nil v)
      have hfits := hstarts.isPrefix.length_le
      rw [length_drop] at hfits
      have hrest : chars.drop k = utf16 v ++ chars.drop (last + 1) := by
        obtain ⟨t, ht⟩ := hstarts.isPrefix
        rw [hlast, ← drop_drop, ← ht, drop_left' rfl]
      have hpaired := paired_utf16_append hstarts.isScalarValue (chars.drop (last + 1))
      rw [← hrest] at hpaired
      have hsize := length_encode_le v
      have hne : out ++ (encode v).flatMap escapeOctet ≠ [] := by
        rw [← length_pos_iff, length_append, length_escapes]
        have := length_pos_iff.mpr (@encode_ne_nil v)
        omega
      refine (ih (by omega) (.restart hne (by omega) (by omega)) ?_).mono (fun r hr => ?_)
        fun e he => he.mono (mt hpaired.mp) le_rfl
      . rw [length_append, length_escapes]
        omega
      obtain ⟨w, hfinal, hlength, hdecodes, hrest'⟩ := hr
      rw [append_assoc] at hfinal hlength
      refine ⟨_, hfinal, hlength, ?_, hpaired.mpr hrest'⟩
      have hvalue : valueAt set ((encode v).flatMap escapeOctet ++ w) v = utf16 v := by
        refine if_neg fun hkept => hescaped ?_
        rw [Bool.and_eq_true, decide_eq_true_eq] at hkept
        have hc : c = .ofNat 16 v := by
          have hhead := congrArg List.head? hrest
          rw [hdrop, utf16, if_pos (by omega)] at hhead
          exact Option.some.inj hhead
        rw [hc, hkept.2, toNat_ofNat_unit (by omega), decide_eq_true hkept.1, Bool.or_true, Bool.and_true]
      rw [hrest, ← hvalue]
      refine .escapes hstarts.isScalarValue ?_ ?_
      . rw [octets_escapes]
        exact prefix_append _ _
      . rwa [drop_left' (length_escapes _)]
    . obtain rfl : k = chars.length := by omega
      rw [drop_length]
      exact ⟨[], by rwa [append_nil], by rwa [append_nil], .nil, .nil⟩

theorem Encode_ends (granted : Nat → Bool) (hset : set.any (· (unit '%')) = false) (str : JSLinearString)
    : Ends (Encode granted str set) (fun w => Decodes set w str.units ∧ Paired str.units)
        (Fails granted (¬Paired str.units) (9 * str.units.length)) := by
  have hlatin1 : (!str.hasTwoByteChars) = true → ∀ c ∈ str.units, c.toNat < 256 := by
    intro h c hc
    cases str with
    | twoByte => contradiction
    | latin1 chars =>
      obtain ⟨b, -, rfl⟩ := mem_map.mp hc
      rw [BitVec.toNat_setWidth]
      omega
  unfold Encode
  refine .ite (fun hempty => ?_) fun _ => ?_
  . rw [length_eq_zero_iff.mp hempty]
    exact ⟨.nil, .nil⟩
  refine (encodeLoop_ends hset hlatin1 (Nat.lt_succ_self _) .start (Nat.zero_le _)).bind fun r hr => ?_
  obtain ⟨w, hbuilt, hlength, hdecodes⟩ := hr
  refine (hbuilt.transfer true hlength fun _ => by omega).mono (fun w' hw' => ?_) fun _ he => he
  rw [hw']
  exact hdecodes

end Encode

section Escape

theorem digit_spec {n : CharT} (h : n.toNat < 16)
    : IsAsciiHexDigit (digit n) = true ∧ BitVec.ofNat 16 (AsciiAlphanumericToNumber (digit n)) = n ∧ digit n ≠ 'u' := by
  have hall : ∀ m < 16, IsAsciiHexDigit (digit (.ofNat 16 m)) = true
      ∧ BitVec.ofNat 16 (AsciiAlphanumericToNumber (digit (.ofNat 16 m))) = .ofNat 16 m ∧ digit (.ofNat 16 m) ≠ 'u' := by
    decide
  have := hall n.toNat h
  rwa [eq_ofNat_unit rfl] at this

theorem nibble_toNat (c mask : CharT) {i : Nat} (hmask : mask >>> i = 0xF)
    : ((c &&& mask) >>> i).toNat = c.toNat / 2 ^ i % 16 := by
  rw [BitVec.ushiftRight_and_distrib, hmask, BitVec.toNat_and, BitVec.toNat_ushiftRight, Nat.shiftRight_eq_div_pow]
  exact Nat.and_two_pow_sub_one_eq_mod _ 4

theorem shift_add_toNat {u n : CharT} (hu : u.toNat < 4096) (hn : n.toNat < 16)
    : ((u <<< 4) + n).toNat = 16 * u.toNat + n.toNat := by
  rw [BitVec.toNat_add, BitVec.toNat_shiftLeft, Nat.shiftLeft_eq]
  omega

def nibbles (c : CharT) : List CharT :=
  if c.toNat < 256 then [c >>> 4, c &&& 0xF] else [c >>> 12, (c &&& 0xF00) >>> 8, (c &&& 0xF0) >>> 4, c &&& 0xF]

theorem nibbles_spec (c : CharT)
    : (nibbles c).foldl (fun (u n : CharT) => (u <<< 4) + n) 0 = c ∧ ∀ n ∈ nibbles c, n.toNat < 16 := by
  have hlt := c.isLt
  have hlow : (c &&& 0xF).toNat = c.toNat % 16 := by
    have := nibble_toNat c 0xF (i := 0) rfl
    rwa [BitVec.ushiftRight_zero, Nat.pow_zero, Nat.div_one] at this
  have hshift (i : Nat) : (c >>> i).toNat = c.toNat / 2 ^ i := by
    rw [BitVec.toNat_ushiftRight, Nat.shiftRight_eq_div_pow]
  have hzero {n : CharT} (h : n.toNat < 16) : (((0 : CharT) <<< 4) + n).toNat = n.toNat := by
    rw [shift_add_toNat (by decide) h]
    exact Nat.zero_add _
  have h4 := hshift 4
  unfold nibbles
  split
  next hlatin1 =>
    refine ⟨BitVec.eq_of_toNat_eq ?_, ?_⟩
    . simp only [foldl_cons, foldl_nil]
      have hhigh : (((0 : CharT) <<< 4) + c >>> 4).toNat = _ := hzero (by omega)
      rw [shift_add_toNat (by omega) (by omega)]
      omega
    . simp only [forall_mem_cons, not_mem_nil, false_implies, implies_true, and_true]
      omega
  next =>
    have h8 := nibble_toNat c 0xF00 (i := 8) rfl
    have h4 := nibble_toNat c 0xF0 (i := 4) rfl
    have h12 := hshift 12
    refine ⟨BitVec.eq_of_toNat_eq ?_, ?_⟩
    . simp only [foldl_cons, foldl_nil]
      have hhigh : (((0 : CharT) <<< 4) + c >>> 12).toNat = _ := hzero (by omega)
      generalize ((0 : CharT) <<< 4) + c >>> 12 = u at *
      have h2 : ((u <<< 4) + (c &&& 0xF00) >>> 8).toNat = _ := shift_add_toNat (by omega) (by omega)
      generalize (u <<< 4) + (c &&& 0xF00) >>> 8 = u' at *
      have h3 : ((u' <<< 4) + (c &&& 0xF0) >>> 4).toNat = _ := shift_add_toNat (by omega) (by omega)
      generalize (u' <<< 4) + (c &&& 0xF0) >>> 4 = u'' at *
      rw [shift_add_toNat (by omega) (by omega)]
      omega
    . simp only [forall_mem_cons, not_mem_nil, false_implies, implies_true, and_true]
      omega

theorem escapedUnit_cases (c : CharT)
    : escapedUnit c = [c] ∧ (c.toNat < 128 && shouldPassThrough c) = true ∧ c ≠ '%'
      ∨ (c.toNat < 128 && shouldPassThrough c) = false ∧ (c.toNat < 256 ∧ (nibbles c).length = 2
          ∧ escapedUnit c = unit '%' :: (nibbles c).map digit
        ∨ ¬c.toNat < 256 ∧ (nibbles c).length = 4 ∧ escapedUnit c = unit '%' :: unit 'u' :: (nibbles c).map digit) := by
  unfold escapedUnit nibbles
  by_cases hpass : (c.toNat < 128 && shouldPassThrough c) = true
  . rw [if_pos hpass]
    refine .inl ⟨rfl, hpass, ?_⟩
    rintro rfl
    revert hpass
    decide
  rw [if_neg hpass]
  rw [Bool.not_eq_true] at hpass
  refine .inr ⟨hpass, ?_⟩
  split
  next hlatin1 => exact .inl ⟨hlatin1, rfl, rfl⟩
  next hlatin1 => exact .inr ⟨hlatin1, rfl, rfl⟩

theorem length_escapedUnit (c : CharT) : 0 < (escapedUnit c).length ∧ (escapedUnit c).length ≤ 6 := by
  rcases escapedUnit_cases c with ⟨h, -⟩ | ⟨-, ⟨-, hlength, h⟩ | ⟨-, hlength, h⟩⟩ <;> rw [h] <;>
    simp only [length_cons, length_nil, length_map] <;> omega

theorem length_escaped (s : List CharT)
    : s.length ≤ (s.flatMap escapedUnit).length ∧ (s.flatMap escapedUnit).length ≤ 6 * s.length := by
  induction s with
  | nil => exact ⟨le_rfl, le_rfl⟩
  | cons c s ih =>
    have := length_escapedUnit c
    rw [flatMap_cons, length_append, length_cons]
    omega

theorem escaped_eq_self {s : List CharT} (h : (s.flatMap escapedUnit).length = s.length) : s.flatMap escapedUnit = s := by
  induction s with
  | nil => rfl
  | cons c s ih =>
    have hrest := (length_escaped s).1
    rw [flatMap_cons, length_append, length_cons] at h
    rcases escapedUnit_cases c with ⟨hc, -⟩ | ⟨-, ⟨-, hlength, hc⟩ | ⟨-, hlength, hc⟩⟩
    . rw [hc, length_singleton] at h
      rw [flatMap_cons, hc, ih (by omega)]
      rfl
    . rw [hc] at h
      simp only [length_cons, length_map] at h
      omega
    . rw [hc] at h
      simp only [length_cons, length_map] at h
      omega

theorem escapedLength_ends (s : List CharT) (hn : newLength + 5 * s.length ≤ n)
    : Ends (escapedLength s newLength) (fun r => r + s.length = newLength + (s.flatMap escapedUnit).length)
        (Fails granted False n) := by
  induction s generalizing newLength with
  | nil => exact rfl
  | cons c s ih =>
    simp only [length_cons, flatMap_cons, length_append] at *
    unfold escapedLength
    have hescaped {m : Nat} (hm : m ≤ 5) (hlength : (escapedUnit c).length = m + 1)
        : Ends (if MAX_LENGTH < newLength + m then throw .Failure else escapedLength s (newLength + m))
            (fun r => r + (s.length + 1) = newLength + ((escapedUnit c).length + (s.flatMap escapedUnit).length))
            (Fails granted False n) := by
      refine .ite (fun hlong => ⟨_, by omega, .inr hlong⟩) fun _ => ?_
      exact (ih (by omega)).mono (fun r hr => by omega) fun _ he => he
    rcases escapedUnit_cases c with ⟨hc, hpass, -⟩ | ⟨hpass, ⟨hlt, hlength, hc⟩ | ⟨hlt, hlength, hc⟩⟩
    . rw [if_pos hpass]
      refine (ih (by omega)).mono (fun r hr => ?_) fun _ he => he
      rw [hc, length_singleton]
      omega
    . rw [hpass, if_neg Bool.false_ne_true, if_pos hlt]
      exact hescaped (by omega) (by rw [hc, length_cons, length_map, hlength])
    . rw [hpass, if_neg Bool.false_ne_true, if_neg hlt]
      exact hescaped (by omega) (by rw [hc, length_cons, length_cons, length_map, hlength])

theorem writeEscaped_eq (s : List CharT) (h : sb.length + (s.flatMap escapedUnit).length ≤ newLength)
    : writeEscaped newLength s sb = .ok (sb ++ s.flatMap escapedUnit) := by
  induction s generalizing sb with
  | nil =>
    rw [flatMap_nil, append_nil]
    rfl
  | cons c s ih =>
    rw [flatMap_cons, length_append] at h
    unfold writeEscaped
    rw [if_neg (by omega), ih (by rw [length_append]; omega), flatMap_cons, append_assoc]

theorem Escape_ends (granted : Nat → Bool) (s : List CharT)
    : Ends (Escape granted s) (fun r => r.2 = (s.flatMap escapedUnit).length ∧ (r.2 ≠ s.length → r.1 = s.flatMap escapedUnit))
        (Fails granted False (6 * s.length)) := by
  refine (escapedLength_ends s (n := 6 * s.length) (by omega)).bind fun newLength hlength => ?_
  obtain rfl : newLength = (s.flatMap escapedUnit).length := by omega
  refine .ite (fun heq => ⟨rfl, fun hne => absurd heq hne⟩) fun _ => (reserve_ends ?_).bind fun _ _ => ?_
  . exact (length_escaped s).2
  . rw [writeEscaped_eq s (by rw [length_nil, Nat.zero_add]), nil_append]
    exact Ends.ite (fun hne => absurd rfl hne) fun _ => ⟨rfl, fun _ => rfl⟩

theorem Unhex_eq {unhex : CharT} {ns : List CharT} {k : Nat} (hdigits : ns.map digit <+: chars.drop k)
    (hns : ∀ n ∈ ns, n.toNat < 16)
    : Unhex chars ns.length k unhex = .ok (some (ns.foldl (fun u n => (u <<< 4) + n) unhex)) := by
  induction ns generalizing k unhex with
  | nil => rfl
  | cons n ns ih =>
    obtain ⟨t, ht⟩ := hdigits
    rw [map_cons, cons_append] at ht
    have hread : read chars k = .ok (digit n) := by
      have hget := getElem?_of_drop ht.symm 0
      rw [read, ← Nat.add_zero k, hget]
      rfl
    have hrest : ns.map digit <+: chars.drop (k + 1) := by
      rw [← drop_drop, ← ht]
      exact prefix_append _ t
    obtain ⟨hdigit, hvalue, -⟩ := digit_spec (hns n mem_cons_self)
    rw [length_cons, Unhex, hread]
    change (if (!IsAsciiHexDigit (digit n)) = true then _ else _) = _
    rw [hdigit, if_neg (by decide), ih hrest fun m hm => hns m (mem_cons_of_mem _ hm), hvalue]
    rfl

theorem unescapeAt_eq {c : CharT} (hc : (c.toNat < 128 && shouldPassThrough c) = false)
    (h : escapedUnit c <+: chars.drop k)
    : unescapeAt chars k = .ok (some (c, (escapedUnit c).length - 1)) := by
  obtain ⟨hvalue, hns⟩ := nibbles_spec c
  have hfits := h.length_le
  obtain ⟨t, ht⟩ := h
  rw [length_drop] at hfits
  unfold unescapeAt
  rcases escapedUnit_cases c with ⟨-, hpass, -⟩ | ⟨-, ⟨-, hlength, hunit⟩ | ⟨-, hlength, hunit⟩⟩
  . rw [hc] at hpass
    contradiction
  . have hshort : (if k + 6 ≤ chars.length then (· == unit 'u') <$> read chars (k + 1) else return false)
        = (.ok false : Except Stop Bool) := by
      split
      next =>
        obtain ⟨n, ns, hn⟩ := exists_cons_of_length_eq_add_one hlength
        rw [hunit, hn] at ht
        rw [read, getElem?_of_drop ht.symm 1]
        have hne := (digit_spec (hns n (hn ▸ mem_cons_self))).2.2
        exact congrArg Except.ok (beq_eq_false_iff_ne.mpr hne)
      next => rfl
    have hdigits : (nibbles c).map digit <+: chars.drop (k + 1) := by
      rw [← drop_drop, ← ht, hunit]
      exact prefix_append _ t
    have hunhex := @Unhex_eq _ 0 _ _ hdigits hns
    rw [hlength, hvalue] at hunhex
    rw [hunit] at hfits ⊢
    simp only [length_cons, length_map, hlength] at hfits ⊢
    rw [hshort]
    change (if k + 3 ≤ chars.length then _ else _) = _
    rw [if_pos (by omega), hunhex]
    rfl
  . have hdigits : (nibbles c).map digit <+: chars.drop (k + 2) := by
      rw [← drop_drop, ← ht, hunit]
      exact prefix_append _ t
    have hunhex := @Unhex_eq _ 0 _ _ hdigits hns
    rw [hlength, hvalue] at hunhex
    rw [hunit] at hfits ht ⊢
    simp only [length_cons, length_map, hlength] at hfits ⊢
    rw [if_pos (by omega), read, getElem?_of_drop ht.symm 1]
    change (do let r ← Unhex chars 4 (k + 2) 0; return r.map (·, 5)) = _
    rw [hunhex]
    rfl

theorem str_escape_ends (granted : Nat → Bool) (s : List CharT)
    : Ends (str_escape granted s) (· = s.flatMap escapedUnit) (Fails granted False (6 * s.length)) := by
  refine (Escape_ends granted s).bind fun r hr => ?_
  obtain ⟨newChars, newLength⟩ := r
  obtain ⟨hlength, hchars⟩ := hr
  dsimp only at hlength hchars ⊢
  refine .ite (fun heq => ?_) fun hne => (reserve_ends ?_).bind fun _ _ => ?_
  . rw [hlength] at heq
    exact (escaped_eq_self heq).symm
  . rw [hlength]
    exact (length_escaped s).2
  . exact hchars hne

theorem appendUnit_ends {c : CharT} {sb : Option (List CharT)} (h : ∀ w, sb = some w → w.length + 1 ≤ n)
    : Ends (sb.mapM (append granted · [c])) (· = sb.map (· ++ [c])) (Fails granted False n) := by
  cases sb with
  | none => exact rfl
  | some w => exact (append_ends (h w rfl)).bind fun _ hw => congrArg some hw

theorem unescapeLoop_ends {s₁ s₂ s : List CharT} {sb : Option (List CharT)} {rounds : Nat} (hs : s = s₁ ++ s₂)
    (hchars : chars = s.flatMap escapedUnit) (hk : k = (s₁.flatMap escapedUnit).length) (hrounds : s₂.length < rounds)
    (hsb : sb = none ∧ s₁.flatMap escapedUnit = s₁ ∨ sb = some s₁ ∧ s₁ ≠ [])
    : Ends (unescapeLoop granted chars rounds sb k) (fun r => r = none ∧ chars = s ∨ r = some s ∧ s ≠ [])
        (Fails granted False chars.length) := by
  induction rounds generalizing s₁ s₂ sb k with
  | zero => omega
  | succ rounds ih =>
    have hlength := (length_escaped s).1
    rw [← hchars] at hlength
    unfold unescapeLoop
    cases s₂ with
    | nil =>
      rw [append_nil] at hs
      subst hs
      rw [if_neg (by rw [hk, hchars]; omega), hchars]
      exact hsb
    | cons c s₂ =>
      have hsplit : chars = s₁.flatMap escapedUnit ++ (escapedUnit c ++ s₂.flatMap escapedUnit) := by
        rw [hchars, hs, flatMap_append, flatMap_cons]
      have hdrop : chars.drop k = escapedUnit c ++ s₂.flatMap escapedUnit := by
        rw [hsplit, drop_left' hk.symm]
      have hpos := (length_escapedUnit c).1
      have hnext (m : Nat) (hm : m = (escapedUnit c).length - 1) : k + m + 1 = ((s₁ ++ [c]).flatMap escapedUnit).length := by
        rw [flatMap_append, flatMap_singleton, length_append]
        omega
      have hgrown : s₁.length + 1 ≤ chars.length := by
        rw [hs, length_append, length_cons] at hlength
        omega
      have hlt : k < chars.length := by
        rw [hsplit, length_append, length_append]
        omega
      rw [if_pos hlt]
      have hs' : s = (s₁ ++ [c]) ++ s₂ := by
        rw [hs, append_assoc, singleton_append]
      rw [length_cons] at hrounds
      rcases escapedUnit_cases c with ⟨hunit, -, hne⟩ | ⟨hpass, hunit⟩
      . rw [hunit, singleton_append] at hdrop
        refine (read_ends (getElem?_of_drop hdrop 0) _).bind fun c' hc' => ?_
        subst hc'
        rw [if_neg hne]
        change Ends (do
          let sb ← sb.mapM (append granted · [c'])
          unescapeLoop granted chars rounds sb (k + 0 + 1)) _ _
        refine (appendUnit_ends fun w hw => ?_).bind fun r hr => ih hs' (hnext 0 (by rw [hunit]; rfl)) (by omega) ?_
        . rcases hsb with ⟨rfl, -⟩ | ⟨rfl, -⟩
          . contradiction
          . cases hw
            exact hgrown
        rcases hsb with ⟨rfl, hself⟩ | ⟨rfl, -⟩
        . refine .inl ⟨hr, ?_⟩
          rw [flatMap_append, flatMap_singleton, hself, hunit]
        . exact .inr ⟨hr, concat_ne_nil _ _⟩
      have hprefix : escapedUnit c <+: chars.drop k := by
        rw [hdrop]
        exact prefix_append _ _
      have hpercent : chars[k]? = some (unit '%') := by
        obtain ⟨t, ht⟩ : ∃ t, escapedUnit c = unit '%' :: t := by
          rcases hunit with ⟨-, -, h⟩ | ⟨-, -, h⟩
          . exact ⟨_, h⟩
          . exact ⟨_, h⟩
        rw [ht] at hdrop
        exact getElem?_of_drop hdrop 0
      refine (read_ends hpercent _).bind fun c' hc' => ?_
      rw [hc', if_pos rfl, unescapeAt_eq hpass hprefix]
      have hbuilding : Ends (if sb.isNone = true then do
            reserve granted chars.length
            return some (chars.take k)
          else return sb) (· = some s₁) (Fails granted False chars.length) := by
        rcases hsb with ⟨rfl, hself⟩ | ⟨rfl, -⟩
        . refine (reserve_ends le_rfl).bind fun _ _ => ?_
          rw [hsplit, take_left' hk.symm, hself]
          exact rfl
        . exact rfl
      change Ends ((if sb.isNone = true then do
            reserve granted chars.length
            return some (chars.take k)
          else return sb : Except Stop (Option (List CharT))) >>= fun sb => sb.mapM (append granted · [c]) >>= fun sb =>
        unescapeLoop granted chars rounds sb (k + ((escapedUnit c).length - 1) + 1)) _ _
      refine hbuilding.bind fun sb' hsb' => ?_
      subst hsb'
      refine (appendUnit_ends fun w hw => ?_).bind fun r hr => ih hs' (hnext _ rfl) (by omega) ?_
      . cases hw
        exact hgrown
      . exact .inr ⟨hr, concat_ne_nil _ _⟩

theorem str_unescape_ends (granted : Nat → Bool) (s : List CharT)
    : Ends (str_unescape granted (s.flatMap escapedUnit)) (· = s)
        (Fails granted False (s.flatMap escapedUnit).length) := by
  have hloop := @unescapeLoop_ends granted _ _ [] s s none _ rfl rfl rfl
    (Nat.lt_succ_of_le (length_escaped s).1) (.inl ⟨rfl, rfl⟩)
  refine hloop.bind fun r hr => ?_
  rcases hr with ⟨rfl, hself⟩ | ⟨rfl, hne⟩
  . exact hself
  have hle := (length_escaped s).1
  refine .ite (fun hnil => absurd (List.isEmpty_iff.mp hnil) hne) fun _ => ?_
  exact .ite (fun hlong => ⟨_, hle, .inr hlong⟩) fun _ => (reserve_ends hle).bind fun _ _ => rfl

end Escape

-- Only a string with an unpaired surrogate cannot be encoded, and what it is encoded to stands for it alone.
def RoundTrips (granted : Nat → Bool) (set : Option (CharT → Bool)) (str : JSLinearString) : Prop :=
  Ends (Encode granted str set)
    (fun w => Paired str.units ∧ Ends (Decode granted w set) (· = str.units) (Fails granted False w.length))
    (Fails granted (¬Paired str.units) (9 * str.units.length))

theorem roundTrips (granted : Nat → Bool) (hset : set.any (· (unit '%')) = false) (str : JSLinearString)
    : RoundTrips granted set str := by
  refine (Encode_ends granted hset str).mono (fun w hw => ?_) fun _ he => he
  obtain ⟨hdecodes, hpaired⟩ := hw
  refine ⟨hpaired, (Decode_ends granted set w).mono (fun v hv => ?_) fun e he => ?_⟩
  . exact ((hv str.units).mp hdecodes).symm
  . exact he.mono (fun hnone => hnone ⟨_, hdecodes⟩) le_rfl

theorem escapes_roundTrip (granted : Nat → Bool)
    : (∀ str : JSLinearString, RoundTrips granted none str ∧ RoundTrips granted (some js_isUriReservedPlusPound) str)
      ∧ (∀ set chars, Ends (Decode granted chars set) (fun v => ∀ v', Decodes set chars v' ↔ v' = v)
        (Fails granted (¬∃ v, Decodes set chars v) chars.length))
      ∧ ∀ s : List CharT,
        Ends (Escape granted s) (fun r => r.2 = (s.flatMap escapedUnit).length ∧ (r.2 ≠ s.length → r.1.length = r.2))
          (Fails granted False (6 * s.length))
        ∧ Ends (str_escape granted s)
          (fun w => w = s.flatMap escapedUnit ∧ Ends (str_unescape granted w) (· = s) (Fails granted False w.length))
          (Fails granted False (6 * s.length)) := by
  refine ⟨fun str => ⟨roundTrips granted rfl str, roundTrips granted (by decide) str⟩, Decode_ends granted, fun s => ?_⟩
  refine ⟨(Escape_ends granted s).mono (fun r hr => ⟨hr.1, fun hne => ?_⟩) fun _ he => he,
    (str_escape_ends granted s).mono (fun w hw => ⟨hw, ?_⟩) fun _ he => he⟩
  . rw [hr.2 hne, hr.1]
  . rw [hw]
    exact str_unescape_ends granted s

end SpiderMonkey.URI
