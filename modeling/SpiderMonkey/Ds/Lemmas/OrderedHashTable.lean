import SpiderMonkey.Ds.Impl.OrderedHashTable
import SpiderMonkey.Lib.Lists
import SpiderMonkey.Lib.Loop

/-!
This module contains what the operations of the hash table do to its live entries and that they keep
the hash chains well formed.
-/

namespace SpiderMonkey.OrderedHashTable

open List

variable {T K : Type} {ops : Ops T K}

theorem live_makeEmpty (e : T) : ops.live (ops.makeEmpty e) = false := by
  unfold Ops.live
  rw [ops.isEmpty_makeEmpty]
  rfl

theorem live_eq_true : ops.live e = true ↔ ops.isEmpty (ops.getKey e) = false := by
  unfold Ops.live
  rw [Bool.not_eq_true']

theorem live_eq_false : ops.live e = false ↔ ops.isEmpty (ops.getKey e) = true := by
  unfold Ops.live
  rw [Bool.not_eq_false']

-- The chains of a hash table lead to every live element of `data`.
structure Chained (ops : Ops T K) (hashShift : Nat) (hashTable : Nat → List Nat) (data : List T)
    : Prop where
  mem : ∀ j (h : j < data.length), ops.live data[j] = true
    → j ∈ hashTable (bucket ops hashShift data[j])
  lt : ∀ b, ∀ j ∈ hashTable b, j < data.length

structure WellFormed (ops : Ops T K) (t : OrderedHashTable T) : Prop where
  liveCount_eq : t.liveCount = (t.data.filter ops.live).length
  chained : Chained ops t.hashShift t.hashTable t.data
  distinct : (t.data.filter ops.live).Pairwise
    (fun d e => ops.match_ (ops.getKey d) (ops.getKey e) = false)

def allRanges (t : OrderedHashTable T) : List (Nat × Range) := t.ranges ++ t.nurseryRanges

@[simp]
theorem allRanges_forEachRange (f : Range → Range) (t : OrderedHashTable T)
    : (forEachRange f t).allRanges = t.allRanges.map (fun r => (r.1, f r.2)) := by
  simp [allRanges, forEachRange]

theorem Chained.nil (hashShift : Nat) : Chained ops hashShift (fun _ => []) [] := by
  constructor
  . intro j h
    simp at h
  . intro b j h
    simp at h

variable {hashShift : Nat}

theorem Chained.append {hashTable : Nat → List Nat} {data : List T}
    (h : Chained ops hashShift hashTable data) (e : T)
    : Chained ops hashShift (Function.update hashTable (bucket ops hashShift e)
          (data.length :: hashTable (bucket ops hashShift e))) (data ++ [e]) := by
  constructor
  . intro j hj hlive
    rw [length_append, length_singleton] at hj
    by_cases hlast : j = data.length
    . subst hlast
      simp
    have hj' : j < data.length := by omega
    rw [getElem_append_left hj'] at hlive ⊢
    have hmem := h.mem j hj' hlive
    by_cases hb : bucket ops hashShift data[j] = bucket ops hashShift e
    . rw [hb] at hmem ⊢
      simp [hmem]
    . simpa [hb] using hmem
  intro b j hj
  rw [length_append, length_singleton]
  by_cases hb : b = bucket ops hashShift e
  . rw [hb, Function.update_self, mem_cons] at hj
    cases hj with
    | inl hj => omega
    | inr hj =>
      have := h.lt _ j hj
      omega
  . rw [Function.update_of_ne hb] at hj
    have := h.lt b j hj
    omega

theorem Chained.congr {hashTable : Nat → List Nat} {data data' : List T}
    (h : Chained ops hashShift hashTable data) (hlen : data'.length = data.length)
    (hsame : ∀ j (hj : j < data.length) (hj' : j < data'.length), ops.live data'[j] = true
      → ops.live data[j] = true ∧ bucket ops hashShift data'[j] = bucket ops hashShift data[j])
    : Chained ops hashShift hashTable data' := by
  constructor
  . intro j hj hlive
    have hj' : j < data.length := by omega
    obtain ⟨hlive', hbucket⟩ := hsame j hj' hj hlive
    rw [hbucket]
    exact h.mem j hj' hlive'
  . intro b j hj
    rw [hlen]
    exact h.lt b j hj

variable {s : List T × (Nat → List Nat)}

theorem rehashStep_dead (h : ops.live e = false) : rehashStep ops hashShift s e = s := by
  unfold rehashStep
  dsimp only
  rw [if_pos (live_eq_false.mp h)]

theorem rehashStep_live (h : ops.live e = true)
    : rehashStep ops hashShift s e = (s.1 ++ [e], Function.update s.2 (bucket ops hashShift e)
        (s.1.length :: s.2 (bucket ops hashShift e))) := by
  unfold rehashStep
  dsimp only
  rw [if_neg (by rw [live_eq_true.mp h]; exact Bool.false_ne_true)]

theorem rehashStep_foldl (ops : Ops T K) (data : List T) (h : Chained ops hashShift s.2 s.1)
    : (data.foldl (rehashStep ops hashShift) s).1 = s.1 ++ data.filter ops.live ∧
      Chained ops hashShift (data.foldl (rehashStep ops hashShift) s).2
        (data.foldl (rehashStep ops hashShift) s).1 := by
  induction data generalizing s with
  | nil => simpa using h
  | cons e data ih =>
    rw [foldl_cons]
    cases hlive : ops.live e with
    | false =>
      rw [rehashStep_dead hlive, filter_cons_of_neg (by simp [hlive])]
      exact ih h
    | true =>
      rw [rehashStep_live hlive, filter_cons_of_pos hlive]
      have hrest := ih (s := (s.1 ++ [e], Function.update s.2 (bucket ops hashShift e)
        (s.1.length :: s.2 (bucket ops hashShift e)))) (h.append e)
      rw [append_assoc, singleton_append] at hrest
      exact hrest

theorem rehashInPlaceStep_dead {rp : Nat} {s : List T × Nat × (Nat → List Nat)}
    (hread : s.1[rp]? = some e) (h : ops.live e = false)
    : rehashInPlaceStep ops hashShift rp s = s := by
  unfold rehashInPlaceStep
  dsimp only
  rw [hread]
  dsimp only
  rw [if_pos (live_eq_false.mp h)]

theorem rehashInPlaceStep_live {rp : Nat} {s : List T × Nat × (Nat → List Nat)}
    (hread : s.1[rp]? = some e) (h : ops.live e = true)
    : rehashInPlaceStep ops hashShift rp s = (s.1.set s.2.1 e, s.2.1 + 1, Function.update s.2.2 (bucket ops hashShift e)
        (s.2.1 :: s.2.2 (bucket ops hashShift e))) := by
  unfold rehashInPlaceStep
  dsimp only
  rw [hread]
  dsimp only
  rw [if_neg (by rw [live_eq_true.mp h]; exact Bool.false_ne_true)]
  split
  . rfl
  next heq =>
  rw [ne_eq, not_not] at heq
  rw [← heq]
  congr 1
  apply ext_getElem?
  intro j
  rw [List.getElem?_set]
  split
  . next hj =>
    rw [← hj, hread, if_pos (List.getElem?_eq_some_iff.mp hread).1]
  . rfl

structure Compacting (ops : Ops T K) (hashShift : Nat) (data : List T) (rp : Nat)
    (s : List T × Nat × (Nat → List Nat)) : Prop where
  length_eq : s.1.length = data.length
  wp_eq : s.2.1 = ((data.take rp).filter ops.live).length
  take_eq : s.1.take s.2.1 = (data.take rp).filter ops.live
  drop_eq : s.1.drop rp = data.drop rp
  chained : Chained ops hashShift s.2.2 ((data.take rp).filter ops.live)

theorem Compacting.step {hashShift : Nat} {data : List T} {rp : Nat}
    {s : List T × Nat × (Nat → List Nat)} (h : Compacting ops hashShift data rp s) (hrp : rp < data.length)
    : Compacting ops hashShift data (rp + 1) (rehashInPlaceStep ops hashShift rp s) := by
  obtain ⟨hlen, hwp, htake, hdrop, hchained⟩ := h
  have hwp_le : s.2.1 ≤ rp := by
    rw [hwp]
    apply Nat.le_trans (length_filter_le _ _)
    rw [length_take]
    exact Nat.min_le_left _ _
  have hread : s.1[rp]? = some data[rp] := by
    have := congrArg (fun l => l[0]?) hdrop
    simpa [hrp] using this
  have hdrop' : s.1.drop (rp + 1) = data.drop (rp + 1) := by
    rw [← drop_drop, hdrop, drop_drop]
  have hsplit := take_succ_eq_append_getElem hrp
  cases hlive : ops.live data[rp] with
  | false =>
    have hfilter : (data.take (rp + 1)).filter ops.live = (data.take rp).filter ops.live := by
      rw [hsplit, filter_append]
      simp [hlive]
    rw [rehashInPlaceStep_dead hread hlive]
    exact ⟨hlen, by rw [hfilter, hwp], by rw [hfilter, htake], hdrop', by rw [hfilter]; exact hchained⟩
  | true =>
    have hfilter : (data.take (rp + 1)).filter ops.live = (data.take rp).filter ops.live ++ [data[rp]] := by
      rw [hsplit, filter_append]
      simp [hlive]
    rw [rehashInPlaceStep_live hread hlive]
    constructor
    . simpa using hlen
    . rw [hfilter, length_append, ← hwp]
      rfl
    . dsimp only
      rw [hfilter, take_succ_eq_append_getElem (by rw [length_set]; omega),
        take_set_of_le (Nat.le_refl _), htake, getElem_set_self]
    . dsimp only
      rw [drop_set_of_lt (by omega), hdrop']
    . rw [hfilter]
      have := hchained.append data[rp]
      rw [← hwp] at this
      exact this

theorem rehashInPlace_fold (ops : Ops T K) (hashShift : Nat) (data : List T)
    : Compacting ops hashShift data data.length (Nat.fold data.length (fun rp _ => rehashInPlaceStep ops hashShift rp)
          (data, 0, fun _ => [])) := by
  apply Loop.fold_inv data.length _ _ (Compacting ops hashShift data)
  . constructor
    . rfl
    . simp
    . simp
    . rfl
    . simpa using Chained.nil hashShift
  . intro rp hrp s h
    exact h.step hrp

structure IsCompacted (ops : Ops T K) (t t' : OrderedHashTable T) : Prop where
  data_eq : t'.data = t.data.filter ops.live
  liveCount_eq : t'.liveCount = t.liveCount
  chained : Chained ops t'.hashShift t'.hashTable t'.data
  allRanges_eq : t'.allRanges = t.allRanges.map (fun r => (r.1, r.2.onCompact))

variable {t : OrderedHashTable T}

theorem rehashInPlace_isCompacted (h : WellFormed ops t)
    : IsCompacted ops t (rehashInPlace ops t) := by
  have hfold := rehashInPlace_fold ops t.hashShift t.data
  unfold rehashInPlace
  dsimp only
  generalize Nat.fold t.data.length (fun rp _ => rehashInPlaceStep ops t.hashShift rp)
    (t.data, 0, fun _ => []) = moved at *
  have hwp := hfold.wp_eq
  have hdata := hfold.take_eq
  have hchained := hfold.chained
  rw [take_length] at hwp hdata hchained
  have htake : moved.1.take t.liveCount = t.data.filter ops.live := by
    rw [h.liveCount_eq, ← hwp, hdata]
  constructor
  . exact htake
  . rfl
  . dsimp only [compacted, forEachRange]
    rw [htake]
    exact hchained
  . exact allRanges_forEachRange _ _

theorem rehash_isCompacted (h : WellFormed ops t) (hrehash : rehash ops alloc newHashShift t = some t')
    : IsCompacted ops t t' := by
  unfold rehash at hrehash
  split at hrehash
  . cases hrehash
    exact rehashInPlace_isCompacted h
  split at hrehash
  . cases hrehash
  split at hrehash
  . cases hrehash
  cases hrehash
  have hmoved := rehashStep_foldl ops t.data (s := ([], fun _ => [])) (Chained.nil newHashShift)
  have htake : (t.data.foldl (rehashStep ops newHashShift) ([], fun _ => [])).1.take t.liveCount
      = t.data.filter ops.live := by
    rw [hmoved.1, h.liveCount_eq, nil_append, take_length]
  constructor
  . exact htake
  . rfl
  . dsimp only [compacted, forEachRange]
    rw [htake]
    have := hmoved.2
    rw [hmoved.1, nil_append] at this
    exact this
  . exact allRanges_forEachRange _ _

theorem IsCompacted.wellFormed (h : WellFormed ops t) (hcompact : IsCompacted ops t t') : WellFormed ops t' := by
  have hfilter : t'.data.filter ops.live = t.data.filter ops.live := by
    rw [hcompact.data_eq, filter_filter]
    simp
  constructor
  . rw [hcompact.liveCount_eq, hfilter]
    exact h.liveCount_eq
  . exact hcompact.chained
  . rw [hfilter]
    exact h.distinct

theorem WellFormed.match_unique (h : WellFormed ops t)
    (hj : j < t.data.length) (hk : k < t.data.length) (hj_live : ops.live t.data[j] = true)
    (hk_live : ops.live t.data[k] = true) (hj_match : ops.match_ (ops.getKey t.data[j]) l = true)
    (hk_match : ops.match_ (ops.getKey t.data[k]) l = true) : j = k := by
  have hdistinct := h.distinct
  rw [pairwise_filter, pairwise_iff_getElem] at hdistinct
  have hlt : ∀ (i i' : Nat) (hi : i < t.data.length) (hi' : i' < t.data.length), i < i'
      → ops.live t.data[i] = true → ops.live t.data[i'] = true
      → ops.match_ (ops.getKey t.data[i]) l = true → ops.match_ (ops.getKey t.data[i']) l = true
      → False := by
    intro i i' hi hi' hii' hlive hlive' hmatch hmatch'
    have hsame := ops.match_trans _ _ _ hmatch (ops.match_symm _ _ hmatch')
    rw [hdistinct i i' hi hi' hii' hlive hlive'] at hsame
    contradiction
  rcases Nat.lt_trichotomy j k with hjk | hjk | hjk
  . exact absurd (hlt j k hj hk hjk hj_live hk_live hj_match hk_match) id
  . exact hjk
  . exact absurd (hlt k j hk hj hjk hk_live hj_live hk_match hj_match) id

theorem lookup_some (h : WellFormed ops t)
    (hl : ops.isEmpty l = false) (hlookup : lookup ops t l (ops.prepareHash l) = some e)
    : ∀ k (hk : k < t.data.length), (ops.live t.data[k] && ops.match_ (ops.getKey t.data[k]) l) = true ↔ k = e := by
  unfold lookup at hlookup
  have hmatch := List.find?_some hlookup
  have he := h.chained.lt _ e (mem_of_find?_eq_some hlookup)
  rw [List.getElem?_eq_getElem he] at hmatch
  dsimp only at hmatch
  have hlive : ops.live t.data[e] = true := by
    rw [live_eq_true, ← Bool.not_eq_true]
    intro hempty
    rw [ops.match_empty _ _ hempty hl] at hmatch
    contradiction
  intro k hk
  rw [Bool.and_eq_true]
  constructor
  . intro hboth
    exact h.match_unique hk he hboth.1 hlive hboth.2 hmatch
  intro hke
  subst hke
  exact ⟨hlive, hmatch⟩

theorem lookup_none (h : WellFormed ops t) (hlookup : lookup ops t l (ops.prepareHash l) = none)
    : ∀ d ∈ t.data, ops.live d = true → ops.match_ (ops.getKey d) l = false := by
  intro d hd hlive
  obtain ⟨j, hj, rfl⟩ := mem_iff_getElem.mp hd
  rw [← Bool.not_eq_true]
  intro hmatch
  have hmem := h.chained.mem j hj hlive
  unfold bucket at hmem
  rw [ops.prepareHash_eq _ _ hmatch] at hmem
  have := List.find?_eq_none.mp hlookup j hmem
  rw [List.getElem?_eq_getElem hj] at this
  exact this hmatch

theorem lookup_lt (h : WellFormed ops t)
    (hlookup : lookup ops t l (ops.prepareHash l) = some e) : e < t.data.length :=
  h.chained.lt _ e (mem_of_find?_eq_some hlookup)

def changeMatching (ops : Ops T K) (l : K) (f : T → T) (d : T) : T :=
  if ops.live d && ops.match_ (ops.getKey d) l then f d else d

theorem modify_lookup (h : WellFormed ops t)
    (hl : ops.isEmpty l = false) (hlookup : lookup ops t l (ops.prepareHash l) = some e) (f : T → T)
    : t.data.modify e f = t.data.map (changeMatching ops l f) :=
  Lists.modify_eq_map (lookup_some h hl hlookup)

end SpiderMonkey.OrderedHashTable
