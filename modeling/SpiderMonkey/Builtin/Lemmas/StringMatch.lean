import SpiderMonkey.Builtin.Impl.StringMatch
import SpiderMonkey.Lib.LeastIndex

/-!
This module contains what the loops of the searches find.
-/

namespace SpiderMonkey.StringSearch

open BitVec

variable {text pat p1 : List CharT} {c p0 : CharT} {i k n t count textend : Nat}

def Occurs (pat text : List CharT) (i : Nat) : Prop := pat <+: text.drop i

theorem Occurs.le_length (h : Occurs pat text i) (hne : pat ≠ []) : i + pat.length ≤ text.length := by
  have hle := h.length_le
  have hpos := List.length_pos_iff.mpr hne
  rw [List.length_drop] at hle
  omega

theorem occurs_cons_iff : Occurs (p0 :: p1) text i ↔ text[i]? = some p0 ∧ p1 <+: text.drop (i + 1) := by
  unfold Occurs
  rw [← List.drop_drop, ← Nat.add_zero i, ← List.getElem?_drop, Nat.add_zero]
  cases text.drop i with
  | nil => exact iff_of_false (fun h => List.cons_ne_nil p0 p1 (List.prefix_nil.mp h)) (fun h => nomatch h.1)
  | cons c rest =>
    rw [List.cons_prefix_cons, List.getElem?_cons_zero, Option.some.injEq, List.drop_one, List.tail_cons, eq_comm]

def Finds (m : Option (Option Nat)) (p : Nat → Prop) (start : Nat) : Prop := ∃ r, m = some r ∧ IsLeastIndex p start r

section Scan

theorem testUnits_finds (hfits : t + count ≤ text.length)
    : Finds (testUnits text c count t) (fun i => i < t + count ∧ text[i]? = some c) t := by
  induction count generalizing t with
  | zero => exact ⟨none, rfl, .nowhere fun i hi h => absurd h.1 (Nat.not_lt.mpr hi)⟩
  | succ count ih =>
    obtain ⟨c', hc'⟩ : ∃ c', text[t]? = some c' := ⟨_, List.getElem?_eq_getElem (by omega)⟩
    unfold testUnits
    rw [hc', some_bind]
    split
    next heq => exact ⟨some t, rfl, .here ⟨by omega, heq ▸ hc'⟩⟩
    next hne =>
      obtain ⟨r, hr, hleast⟩ := ih (t := t + 1) (by omega)
      refine ⟨r, hr, (hleast.congr fun i _ => ?_).step fun h => ?_⟩
      . rw [Nat.add_assoc, Nat.add_comm 1]
      . rw [hc'] at h
        exact hne (Option.some.inj h.2)

theorem testUnits_bind_finds {rest : Option (Option Nat)} (hfits : t + count ≤ textend) (hend : textend ≤ text.length)
    (hrest : Finds rest (fun i => i < textend ∧ text[i]? = some c) (t + count))
    : Finds (do
        match ← testUnits text c count t with
        | some t => return some t
        | none => rest) (fun i => i < textend ∧ text[i]? = some c) t := by
  obtain ⟨r, hr, hleast⟩ := @testUnits_finds text c t count (by omega)
  rw [hr, some_bind]
  cases r with
  | some m =>
    obtain ⟨htm, hlt, hm⟩ := hleast.found m rfl
    refine ⟨some m, rfl, ?_, fun i hi hp => ?_⟩
    . rintro _ ⟨⟩
      exact ⟨htm, by omega, hm⟩
    by_cases hit : i < t + count
    . exact hleast.least i hi ⟨hit, hp.2⟩
    . exact ⟨m, rfl, by omega⟩
  | none =>
    obtain ⟨r, hr, hrest⟩ := hrest
    refine ⟨r, hr, hrest.skip (Nat.le_add_right _ _) fun i hi hlt hp => ?_⟩
    obtain ⟨m, hm, -⟩ := hleast.least i hi ⟨hlt, hp.2⟩
    contradiction

theorem unrolledLoop_finds (hend : textend = t + 8 * m) (hfits : textend ≤ text.length) (hrounds : m < rounds)
    : Finds (unrolledLoop text c textend rounds t) (fun i => i < textend ∧ text[i]? = some c) t := by
  induction m generalizing t rounds with
  | zero =>
    cases rounds with
    | zero => omega
    | succ rounds =>
      unfold unrolledLoop
      rw [if_neg (by omega)]
      exact ⟨none, rfl, .nowhere fun i hi h => by omega⟩
  | succ m ih =>
    cases rounds with
    | zero => omega
    | succ rounds =>
      unfold unrolledLoop
      rw [if_pos (by omega)]
      exact testUnits_bind_finds (by omega) hfits (ih (by omega) (by omega))

theorem FirstCharMatcherUnrolled_finds (hpos : 0 < n) (hfits : i + n ≤ text.length)
    : Finds (FirstCharMatcherUnrolled text i n c) (fun t => t < i + n ∧ text[t]? = some c) i := by
  obtain ⟨first, m, hfirst, hm⟩ : ∃ first m, first = (if n % 8 = 0 then 8 else n % 8) ∧ n = first + 8 * m := by
    split
    next => exact ⟨8, n / 8 - 1, rfl, by omega⟩
    next => exact ⟨n % 8, n / 8, rfl, by omega⟩
  unfold FirstCharMatcherUnrolled
  rw [← hfirst]
  exact testUnits_bind_finds (by omega) hfits (unrolledLoop_finds (m := m) (by omega) hfits (by omega))

theorem idxOf?_isLeastIndex (l : List CharT) : IsLeastIndex (fun j => l[j]? = some c) 0 (l.idxOf? c) where
  found j hj := by
    obtain ⟨hlt, heq, -⟩ := List.idxOf?_eq_some_iff.mp hj
    exact ⟨Nat.zero_le j, List.getElem?_eq_some_iff.mpr ⟨hlt, heq⟩⟩
  least j _ hj := by
    cases h : l.idxOf? c with
    | none => exact absurd (List.mem_of_getElem? hj) (List.idxOf?_eq_none_iff.mp h)
    | some m =>
      obtain ⟨hlt, -, hbefore⟩ := List.idxOf?_eq_some_iff.mp h
      refine ⟨m, rfl, Nat.not_lt.mp fun hjm => ?_⟩
      obtain ⟨hjl, heq⟩ := List.getElem?_eq_some_iff.mp hj
      exact hbefore j hjm heq

theorem memchr_finds (hfits : i + n ≤ text.length)
    : Finds (memchr text i n c) (fun t => t < i + n ∧ text[t]? = some c) i := by
  unfold memchr
  rw [if_pos hfits]
  refine ⟨_, rfl, ((idxOf?_isLeastIndex _).congr fun j _ => ?_).shift (p := fun t => t < i + n ∧ text[t]? = some c)⟩
  rw [List.getElem?_take, List.getElem?_drop]
  split
  next hlt => exact ⟨fun h => ⟨by omega, h⟩, fun h => h.2⟩
  next hge => exact ⟨nofun, fun h => absurd h.1 (by omega)⟩

end Scan

section Compare

theorem take_eq_take_succ_iff {l l' : List CharT} (ha : l[p]? = some a) (hb : l'[t]? = some b)
    : (l.drop p).take (count + 1) = (l'.drop t).take (count + 1)
      ↔ a = b ∧ (l.drop (p + 1)).take count = (l'.drop (t + 1)).take count := by
  obtain ⟨hp, rfl⟩ := List.getElem?_eq_some_iff.mp ha
  obtain ⟨ht, rfl⟩ := List.getElem?_eq_some_iff.mp hb
  rw [List.drop_eq_getElem_cons hp, List.drop_eq_getElem_cons ht, List.take_succ_cons, List.take_succ_cons,
    List.cons.injEq]

theorem manualCmp_eq {p : Nat} (hp : p + count ≤ pat.length) (ht : t + count ≤ text.length)
    : manualCmp text pat count p t = some (decide ((pat.drop p).take count = (text.drop t).take count)) := by
  induction count generalizing p t with
  | zero => rfl
  | succ count ih =>
    obtain ⟨a, ha⟩ : ∃ a, pat[p]? = some a := ⟨_, List.getElem?_eq_getElem (by omega)⟩
    obtain ⟨b, hb⟩ : ∃ b, text[t]? = some b := ⟨_, List.getElem?_eq_getElem (by omega)⟩
    unfold manualCmp
    rw [ha, some_bind, hb, some_bind]
    simp only [take_eq_take_succ_iff ha hb]
    split
    next hne => exact congrArg some (decide_eq_false fun h => hne h.1).symm
    next heq =>
      rw [ih (by omega) (by omega)]
      exact congrArg some (decide_eq_decide.mpr (and_iff_right (not_not.mp heq)).symm)

theorem bytes_cons (isLatin1 : Bool) (c : CharT) (l : List CharT)
    : bytes isLatin1 (c :: l)
      = (if isLatin1 then [c.setWidth 8] else [c.setWidth 8, (c >>> 8).setWidth 8]) ++ bytes isLatin1 l :=
  List.flatMap_cons

theorem length_bytes (isLatin1 : Bool) (l : List CharT)
    : (bytes isLatin1 l).length = l.length * (if isLatin1 then 1 else 2) := by
  induction l with
  | nil =>
    rw [List.length_nil, Nat.zero_mul]
    rfl
  | cons c l ih =>
    rw [bytes_cons, List.length_append, ih, List.length_cons, Nat.succ_mul, Nat.add_comm]
    cases isLatin1 <;> rfl

theorem bytes_eq_iff {isLatin1 : Bool} (hlength : l.length = l'.length)
    (hlt : isLatin1 = true → ∀ c ∈ l ++ l', c.toNat < 256) : bytes isLatin1 l = bytes isLatin1 l' ↔ l = l' := by
  refine ⟨fun h => ?_, congrArg _⟩
  induction l generalizing l' with
  | nil => exact (List.length_eq_zero_iff.mp hlength.symm).symm
  | cons c l ih =>
    cases l' with
    | nil => contradiction
    | cons c' l' =>
      rw [bytes_cons, bytes_cons] at h
      obtain ⟨hhead, htail⟩ := List.append_inj h (by cases isLatin1 <;> rfl)
      have hrest : l = l' := by
        apply ih (Nat.succ.inj hlength) _ htail
        intro hlatin1 d hd
        apply hlt hlatin1
        rcases List.mem_append.mp hd with hd | hd
        . exact List.mem_append_left _ (List.mem_cons_of_mem _ hd)
        . exact List.mem_append_right _ (List.mem_cons_of_mem _ hd)
      refine List.cons_eq_cons.mpr ⟨eq_of_toNat_eq ?_, hrest⟩
      cases isLatin1 with
      | true =>
        have hc := hlt rfl c (List.mem_append_left _ List.mem_cons_self)
        have hc' := hlt rfl c' (List.mem_append_right _ List.mem_cons_self)
        have hlow := congrArg BitVec.toNat (List.cons.inj hhead).1
        rw [toNat_setWidth, toNat_setWidth] at hlow
        omega
      | false =>
        obtain ⟨hlow, hhigh⟩ := List.cons.inj hhead
        have hlow := congrArg BitVec.toNat hlow
        have hhigh := congrArg BitVec.toNat (List.cons.inj hhigh).1
        rw [toNat_setWidth, toNat_setWidth] at hlow
        rw [toNat_setWidth, toNat_setWidth, toNat_ushiftRight, toNat_ushiftRight,
          Nat.shiftRight_eq_div_pow, Nat.shiftRight_eq_div_pow] at hhigh
        omega

theorem take_bytes (isLatin1 : Bool) (l : List CharT) (hcount : count ≤ l.length)
    : (bytes isLatin1 l).take (count * (if isLatin1 then 1 else 2)) = bytes isLatin1 (l.take count) := by
  have hsplit : bytes isLatin1 l = bytes isLatin1 (l.take count) ++ bytes isLatin1 (l.drop count) := by
    rw [bytes, bytes, bytes, ← List.flatMap_append, List.take_append_drop]
  rw [hsplit, List.take_left']
  rw [length_bytes, List.length_take, Nat.min_eq_left hcount]

theorem match_eq {inner : InnerMatch} {isLatin1 : Bool} (hfits : i + (p1.length + 1) ≤ text.length)
    (hlt : inner = .MemCmp → isLatin1 = true → ∀ c ∈ p0 :: p1 ++ text, c.toNat < 256)
    : inner.match_ isLatin1 text (p0 :: p1) i = some (decide (p1 <+: text.drop (i + 1))) := by
  have hiff : p1 = (text.drop (i + 1)).take p1.length ↔ p1 <+: text.drop (i + 1) := List.prefix_iff_eq_take.symm
  cases inner with
  | ManualCmp =>
    have h := @manualCmp_eq text (p0 :: p1) (i + 1) p1.length 1 (Nat.add_comm .. ▸ Nat.le_refl _) (by omega)
    rw [List.drop_one, List.tail_cons, List.take_length] at h
    exact h.trans (congrArg some (decide_eq_decide.mpr hiff))
  | MemCmp =>
    have hdrop : p1.length ≤ (text.drop (i + 1)).length := by
      rw [List.length_drop]
      omega
    have hextent : ((p0 :: p1).length - 1) = p1.length := rfl
    unfold InnerMatch.match_ memcmp
    simp only [hextent, List.drop_one, List.tail_cons]
    rw [if_pos ⟨Nat.le_of_eq (length_bytes isLatin1 p1).symm, by rw [length_bytes]; exact Nat.mul_le_mul_right _ hdrop⟩,
      take_bytes _ _ hdrop, take_bytes _ _ (Nat.le_refl _), List.take_length, beq_eq_decide]
    refine congrArg some (decide_eq_decide.mpr ((bytes_eq_iff ?_ fun hlatin1 c hc => ?_).trans hiff))
    . rw [List.length_take, Nat.min_eq_left hdrop]
    apply hlt rfl hlatin1
    rcases List.mem_append.mp hc with hc | hc
    . exact List.mem_append_left _ (List.mem_cons_of_mem _ hc)
    . exact List.mem_append_right _ (List.mem_of_mem_drop (List.mem_of_mem_take hc))

end Compare

def indexOf : Option Nat → Int
  | none => -1
  | some i => i

def Returns (m : Option Int) (p : Nat → Prop) (start : Nat) : Prop :=
  ∃ r, m = some (indexOf r) ∧ IsLeastIndex p start r

section Matcher

variable {inner : InnerMatch} {isLatin1 : Bool}

theorem matcherLoop_returns (hn : n + p1.length = text.length)
    (hlt : inner = .MemCmp → isLatin1 = true → ∀ c ∈ p0 :: p1 ++ text, c.toNat < 256) (hrounds : n - i < rounds)
    : Returns (matcherLoop inner isLatin1 text (p0 :: p1) p0 n rounds i) (Occurs (p0 :: p1) text) i := by
  induction rounds generalizing i with
  | zero => omega
  | succ rounds ih =>
    unfold matcherLoop
    split
    next hi =>
      have hpos : Finds (if isLatin1 = true then memchr text i (n - i) p0 else FirstCharMatcherUnrolled text i (n - i) p0)
          (fun t => t < i + (n - i) ∧ text[t]? = some p0) i := by
        split
        next => exact memchr_finds (by omega)
        next => exact FirstCharMatcherUnrolled_finds (by omega) (by omega)
      have hfirst (j : Nat) (h : Occurs (p0 :: p1) text j) : j < i + (n - i) ∧ text[j]? = some p0 := by
        have hle := h.le_length (List.cons_ne_nil p0 p1)
        rw [List.length_cons] at hle
        exact ⟨by omega, (occurs_cons_iff.mp h).1⟩
      obtain ⟨pos, hrun, hleast⟩ := hpos
      dsimp only
      rw [hrun, some_bind]
      cases pos with
      | none =>
        refine ⟨none, rfl, .nowhere fun j hj h => ?_⟩
        obtain ⟨_, hfound, -⟩ := hleast.least j hj (hfirst j h)
        contradiction
      | some j =>
        obtain ⟨hij, hjn, hj⟩ := hleast.found j rfl
        have hbefore (k : Nat) (hk : i ≤ k) (hkj : k < j) : ¬Occurs (p0 :: p1) text k := by
          intro h
          obtain ⟨_, ⟨⟩, hle⟩ := hleast.least k hk (hfirst k h)
          omega
        dsimp only
        rw [match_eq (by omega) hlt, some_bind]
        simp only [decide_eq_true_eq]
        split
        next hmatch => exact ⟨some j, rfl, .skip (.here (occurs_cons_iff.mpr ⟨hj, hmatch⟩)) hij hbefore⟩
        next hno =>
          obtain ⟨r, hr, hrest⟩ := ih (i := j + 1) (by omega)
          exact ⟨r, hr, (hrest.step fun h => hno (occurs_cons_iff.mp h).2).skip hij hbefore⟩
    next hi =>
      refine ⟨none, rfl, .nowhere fun j hj h => ?_⟩
      have hle := h.le_length (List.cons_ne_nil p0 p1)
      rw [List.length_cons] at hle
      omega

theorem Matcher_returns (hle : (p0 :: p1).length ≤ text.length)
    (htext : isLatin1 = true → ∀ c ∈ text, c.toNat < 256) (hpat : patIsLatin1 = true → ∀ c ∈ p0 :: p1, c.toNat < 256)
    (hinner : inner = .MemCmp → isLatin1 = patIsLatin1)
    : Returns (Matcher inner isLatin1 patIsLatin1 text (p0 :: p1)) (Occurs (p0 :: p1) text) 0 := by
  rw [List.length_cons] at hle
  unfold Matcher
  rw [List.getElem?_cons_zero, some_bind]
  split
  next hwide =>
    rw [Bool.and_eq_true, Bool.and_eq_true, decide_eq_true_eq] at hwide
    refine ⟨none, rfl, .nowhere fun i _ h => ?_⟩
    have := htext hwide.1.1 p0 (List.mem_of_getElem? (occurs_cons_iff.mp h).1)
    omega
  next =>
    refine matcherLoop_returns (by rw [List.length_cons]; omega) (fun hmem hlatin1 c hc => ?_) (by omega)
    rcases List.mem_append.mp hc with hc | hc
    . exact hpat ((hinner hmem).symm.trans hlatin1) c hc
    . exact htext hlatin1 c hc

end Matcher

section Horspool

theorem occurs_iff : Occurs pat text i ↔ ∀ e < pat.length, text[i + e]? = pat[e]? := by
  unfold Occurs
  rw [List.prefix_iff_getElem?]
  refine forall₂_congr fun e he => ?_
  rw [List.getElem?_drop, List.getElem?_eq_getElem he]

theorem compareBackwards_cases (hj : j < pat.length) (hfits : i + j < text.length)
    : compareBackwards text pat (i + j) j = some (some i) ∧ (∀ e ≤ j, text[i + e]? = pat[e]?)
      ∨ compareBackwards text pat (i + j) j = some none ∧ ∃ e ≤ j, text[i + e]? ≠ pat[e]? := by
  obtain ⟨t, ht⟩ : ∃ t, text[i + j]? = some t := ⟨_, List.getElem?_eq_getElem hfits⟩
  obtain ⟨p, hp⟩ : ∃ p, pat[j]? = some p := ⟨_, List.getElem?_eq_getElem hj⟩
  have hne (h : t ≠ p) : ∃ e ≤ j, text[i + e]? ≠ pat[e]? :=
    ⟨j, Nat.le_refl j, by rw [ht, hp]; exact fun heq => h (Option.some.inj heq)⟩
  unfold compareBackwards
  cases j with
  | zero =>
    dsimp only
    rw [ht, some_bind, hp, some_bind]
    split
    next h => exact .inr ⟨rfl, hne h⟩
    next h =>
      refine .inl ⟨rfl, fun e he => ?_⟩
      rw [Nat.le_zero.mp he, ht, hp, not_not.mp h]
  | succ j =>
    dsimp only
    rw [ht, some_bind, hp, some_bind]
    split
    next h => exact .inr ⟨rfl, hne h⟩
    next h =>
      rcases compareBackwards_cases (j := j) (by omega) (show i + j < text.length by omega) with ⟨hrun, heq⟩ | ⟨hrun, hdiffers⟩
      . refine .inl ⟨hrun, fun e he => ?_⟩
        rcases Nat.lt_or_eq_of_le he with hlt | rfl
        . exact heq e (Nat.le_of_lt_succ hlt)
        . rw [ht, hp, not_not.mp h]
      . obtain ⟨e, he, hne⟩ := hdiffers
        exact .inr ⟨hrun, e, Nat.le_succ_of_le he, hne⟩

-- No occurrence is passed over when the pattern is moved on so far under a unit.
def IsShift (pat : List CharT) (upTo : Nat) (c : CharT) (s : Nat) : Prop :=
  0 < s ∧ s ≤ pat.length ∧ ∀ e < upTo, pat[e]? = some c → s + e ≤ pat.length - 1

structure IsSkipTable (pat : List CharT) (upTo : Nat) (skip : List (BitVec 8)) : Prop where
  length : skip.length = sBMHCharSetSize
  isShift : ∀ c : CharT, ∀ s, skip[c.toNat]? = some s → IsShift pat upTo c s.toNat
  lt : ∀ e < upTo, ∀ c, pat[e]? = some c → c.toNat < sBMHCharSetSize

theorem isSkipTable_start (hpos : 0 < pat.length) (hmax : pat.length ≤ sBMHPatLenMax)
    : IsSkipTable pat 0 (List.replicate sBMHCharSetSize (.ofNat 8 pat.length)) where
  length := List.length_replicate
  isShift c s hs := by
    obtain ⟨_, rfl⟩ := List.getElem?_eq_some_iff.mp hs
    unfold sBMHPatLenMax at hmax
    unfold IsShift
    rw [List.getElem_replicate, toNat_ofNat, Nat.mod_eq_of_lt (by omega)]
    exact ⟨hpos, Nat.le_refl _, nofun⟩
  lt _ h := nomatch h

theorem IsSkipTable.fillSkip {rest : List CharT} {skip skip' : List (BitVec 8)} (h : IsSkipTable pat i skip)
    (hmax : pat.length ≤ sBMHPatLenMax) (hrest : rest = (pat.take (pat.length - 1)).drop i)
    (hfill : fillSkip (pat.length - 1) rest i skip = some skip') : IsSkipTable pat (pat.length - 1) skip' := by
  induction rest generalizing i skip with
  | nil =>
    cases hfill
    have hle := List.drop_eq_nil_iff.mp hrest.symm
    rw [List.length_take] at hle
    refine ⟨h.length, fun c s hs => ?_, fun e he => h.lt e (by omega)⟩
    obtain ⟨hpos, hle, hshift⟩ := h.isShift c s hs
    exact ⟨hpos, hle, fun e he => hshift e (by omega)⟩
  | cons c rest ih =>
    have hget : (pat.take (pat.length - 1))[i]? = some c := by
      rw [← Nat.add_zero i, ← List.getElem?_drop, ← hrest]
      rfl
    have hi := (List.getElem?_eq_some_iff.mp hget).1
    rw [List.length_take] at hi
    rw [List.getElem?_take_of_lt (by omega)] at hget
    unfold StringSearch.fillSkip at hfill
    split at hfill
    next => contradiction
    next hlt =>
      refine ih ⟨?_, fun d s hs => ?_, fun e he d hd => ?_⟩ ?_ hfill
      . rw [List.length_set]
        exact h.length
      . rw [List.getElem?_set] at hs
        split at hs
        next heq =>
          obtain rfl : c = d := eq_of_toNat_eq heq
          split at hs
          next =>
            cases hs
            unfold sBMHPatLenMax at hmax
            unfold IsShift
            rw [toNat_ofNat, Nat.mod_eq_of_lt (by omega)]
            exact ⟨by omega, by omega, fun e he _ => by omega⟩
          next => contradiction
        next hne =>
          obtain ⟨hpos, hle, hshift⟩ := h.isShift d s hs
          refine ⟨hpos, hle, fun e he hd => ?_⟩
          rcases Nat.lt_succ_iff_lt_or_eq.mp he with hlt | rfl
          . exact hshift e hlt hd
          rw [hget] at hd
          cases hd
          contradiction
      . rcases Nat.lt_succ_iff_lt_or_eq.mp he with hei | rfl
        . exact h.lt e hei d hd
        rw [hget] at hd
        cases hd
        omega
      . rw [← List.drop_drop, ← hrest]
        rfl

theorem IsSkipTable.next {skip : List (BitVec 8)} (h : IsSkipTable pat (pat.length - 1) skip) (hpos : 0 < pat.length)
    (c : CharT)
    : ∃ s, (if c.toNat ≥ sBMHCharSetSize then some pat.length else BitVec.toNat <$> skip[c.toNat]?) = some s
      ∧ IsShift pat (pat.length - 1) c s := by
  split
  next hge => exact ⟨_, rfl, hpos, Nat.le_refl _, fun e he hc => absurd (h.lt e he c hc) (Nat.not_lt.mpr hge)⟩
  next hlt =>
    obtain ⟨s, hs⟩ : ∃ s, skip[c.toNat]? = some s :=
      ⟨_, List.getElem?_eq_getElem (by rw [h.length]; exact Nat.lt_of_not_le hlt)⟩
    rw [hs]
    exact ⟨_, rfl, h.isShift c s hs⟩

theorem horspoolLoop_returns {skip : List (BitVec 8)} (h : IsSkipTable pat (pat.length - 1) skip)
    (hpos : 0 < pat.length) (hrounds : text.length - i < rounds)
    : Returns (horspoolLoop skip text pat rounds (i + (pat.length - 1))) (Occurs pat text) i := by
  induction rounds generalizing i with
  | zero => omega
  | succ rounds ih =>
    unfold horspoolLoop
    split
    next hk =>
      obtain ⟨c, hc⟩ : ∃ c, text[i + (pat.length - 1)]? = some c := ⟨_, List.getElem?_eq_getElem hk⟩
      rcases compareBackwards_cases (show pat.length - 1 < pat.length by omega) hk with ⟨hrun, heq⟩ | ⟨hrun, hdiffers⟩
      . rw [hrun, some_bind]
        exact ⟨some i, rfl, .here (occurs_iff.mpr fun e he => heq e (by omega))⟩
      obtain ⟨s, hnext, hs, hle, hshift⟩ := h.next hpos c
      obtain ⟨r, hr, hleast⟩ := ih (i := i + s) (by omega)
      rw [hrun, some_bind]
      dsimp only
      rw [hc, some_bind, hnext, some_bind, Nat.add_right_comm]
      refine ⟨r, hr, hleast.skip (Nat.le_add_right _ _) fun d hd hlt hoccurs => ?_⟩
      rw [occurs_iff] at hoccurs
      rcases Nat.lt_or_eq_of_le hd with hid | rfl
      . have he := hoccurs (i + (pat.length - 1) - d) (by omega)
        rw [Nat.add_sub_cancel' (by omega), hc] at he
        have := hshift _ (by omega) he.symm
        omega
      . obtain ⟨e, he, hne⟩ := hdiffers
        exact hne (hoccurs e (by omega))
    next hk =>
      refine ⟨none, rfl, .nowhere fun d hd hoccurs => ?_⟩
      have := hoccurs.le_length (List.length_pos_iff.mp hpos)
      omega

theorem BoyerMooreHorspool_returns (hpos : 0 < pat.length) (hmax : pat.length ≤ sBMHPatLenMax)
    : BoyerMooreHorspool text pat = some sBMHBadPattern ∨ Returns (BoyerMooreHorspool text pat) (Occurs pat text) 0 := by
  unfold BoyerMooreHorspool
  rw [if_pos ⟨hpos, hmax⟩]
  dsimp only
  split
  next => exact .inl rfl
  next skip hfill =>
    have h := (isSkipTable_start hpos hmax).fillSkip hmax (List.drop_zero).symm hfill
    have hrun := @horspoolLoop_returns text pat 0 _ _ h hpos (Nat.lt_succ_self _)
    rw [Nat.zero_add] at hrun
    exact .inr hrun

end Horspool

end SpiderMonkey.StringSearch
