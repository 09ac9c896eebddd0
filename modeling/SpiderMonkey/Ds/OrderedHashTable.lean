import Mathlib.Data.Int.NatAbs
import SpiderMonkey.Ds.Lemmas.OrderedHashTable
import SpiderMonkey.Lib.InsertionOrder
import SpiderMonkey.Lib.Run
import Mathlib.Data.List.Nodup

/-!
This module contains the proof that the ranges over a hash table iterate exactly, in insertion order,
over the entries of the table while it grows, shrinks and is compacted.
-/

namespace SpiderMonkey.OrderedHashTable

open List OrderedHashTable InsertionOrder

variable {T K : Type} {ops : Ops T K}

def abstractStep (ops : Ops T K) (c : InsertionOrder T) (call : Op T K × Bool) : InsertionOrder T :=
  match call with
  | (.put element _, true) =>
    c.put (fun d => ops.match_ (ops.getKey d) (ops.getKey element)) element
  | (.put _ _, false) => c
  | (.remove l _, _) => c.removeIf (fun d => ops.match_ (ops.getKey d) l)
  | (.clear _, true) => c.clear
  | (.clear _, false) => c
  | (.createRange buffer _, _) => c.start buffer
  | (.copyRange buffer other, _) => c.fork buffer other
  | (.destroyRange _, _) => c
  | (.destroyNurseryRanges, _) => c
  | (.popFront buffer, _) => c.advance buffer

def abstractRun (ops : Ops T K) (history : List (Op T K × Bool)) : InsertionOrder T :=
  history.foldl (abstractStep ops) empty

def liveEntry (ops : Ops T K) (x : Nat × T) : Bool := ops.live x.2

-- `entries` are the elements of `data` with the numbers of their insertions, `ahead` is what the
-- range has not visited yet.
structure RangeRel (ops : Ops T K) (entries ahead : List (Nat × T)) (r : Range) : Prop where
  i_le : r.i ≤ entries.length
  count_eq : r.count = ((entries.take r.i).filter (liveEntry ops)).length
  front_live : ∀ h : r.i < entries.length, liveEntry ops entries[r.i] = true
  ahead_eq : (entries.drop r.i).filter (liveEntry ops) = ahead

theorem seekFrom_spec (ops : Ops T K) (rest : List T) (i : Nat)
    : Range.seekFrom ops rest i ≤ i + rest.length ∧ (∀ j (h : j < rest.length), i + j < Range.seekFrom ops rest i
        → ops.live rest[j] = false) ∧
      ∀ j (h : j < rest.length), i + j = Range.seekFrom ops rest i → ops.live rest[j] = true := by
  fun_induction Range.seekFrom ops rest i with
  | case1 i => simp
  | case2 i e rest hempty ih =>
    have hle := Range.le_seekFrom ops rest (i + 1)
    obtain ⟨hlt, hgap, hlive⟩ := ih
    have hlen : (e :: rest).length = rest.length + 1 := length_cons
    refine ⟨by omega, ?_, ?_⟩
    . intro j hj hseek
      cases j with
      | zero => exact live_eq_false.mpr hempty
      | succ j =>
        rw [getElem_cons_succ]
        exact hgap j (by simpa using hj) (by omega)
    intro j hj hseek
    cases j with
    | zero => omega
    | succ j =>
      rw [getElem_cons_succ]
      exact hlive j (by simpa using hj) (by omega)
  | case3 i e rest hnot =>
    rw [Bool.not_eq_true] at hnot
    refine ⟨by omega, ?_, ?_⟩
    . intro j hj hseek
      omega
    intro j hj hseek
    have : j = 0 := by omega
    subst this
    exact live_eq_true.mpr hnot

theorem seek_spec (data : List T) {i : Nat} (hi : i ≤ data.length)
    : i ≤ Range.seek ops data i ∧ Range.seek ops data i ≤ data.length ∧
      (∀ j (h : j < data.length), i ≤ j → j < Range.seek ops data i → ops.live data[j] = false) ∧
      ∀ h : Range.seek ops data i < data.length, ops.live data[Range.seek ops data i] = true := by
  have hle := Range.le_seekFrom ops (data.drop i) i
  obtain ⟨hlt, hgap, hlive⟩ := seekFrom_spec ops (data.drop i) i
  rw [length_drop] at hlt
  unfold Range.seek
  refine ⟨hle, by omega, ?_, ?_⟩
  . intro j hj hij hseek
    have := hgap (j - i) (by rw [length_drop]; omega) (by omega)
    simpa [Nat.add_sub_cancel' hij] using this
  intro h
  have := hlive (Range.seekFrom ops (data.drop i) i - i) (by rw [length_drop]; omega) (by omega)
  simpa [Nat.add_sub_cancel' hle] using this

variable {entries ahead : List (Nat × T)}

theorem RangeRel.seek {i count : Nat} (hi : i ≤ entries.length)
    (hcount : count = ((entries.take i).filter (liveEntry ops)).length)
    (hahead : (entries.drop i).filter (liveEntry ops) = ahead)
    : RangeRel ops entries ahead ⟨Range.seek ops (entries.map Prod.snd) i, count⟩ := by
  have hlen : (entries.map Prod.snd).length = entries.length := length_map _
  obtain ⟨hle, hseek, hgap, hlive⟩ := @seek_spec _ _ ops (entries.map Prod.snd) i (by omega)
  have hgap' : ∀ j (h : j < entries.length), i ≤ j → j < Range.seek ops (entries.map Prod.snd) i
      → liveEntry ops entries[j] = false := by
    intro j hj hij hjs
    have := hgap j (by omega) hij hjs
    rw [getElem_map] at this
    exact this
  constructor
  . rw [← hlen]
    exact hseek
  . rw [hcount, Lists.filter_take_of_gap hle hgap']
  . intro h
    rw [← hlen] at h
    have := hlive h
    rw [getElem_map] at this
    exact this
  . rw [Lists.filter_drop_of_gap hle hgap', hahead]

variable {r : Range}

theorem RangeRel.compact (h : RangeRel ops entries ahead r)
    : RangeRel ops (entries.filter (liveEntry ops)) ahead r.onCompact := by
  have hsplit : entries.filter (liveEntry ops) = (entries.take r.i).filter (liveEntry ops) ++ ahead := by
    rw [← h.ahead_eq, ← filter_append, take_append_drop]
  have htake : (entries.filter (liveEntry ops)).take r.count = (entries.take r.i).filter (liveEntry ops) := by
    rw [hsplit, h.count_eq, take_left]
  constructor
  . rw [hsplit, length_append, ← h.count_eq]
    exact Nat.le_add_right _ _
  . dsimp only [Range.onCompact]
    rw [htake, filter_filter]
    simp only [Bool.and_self]
    exact h.count_eq
  . intro hlt
    exact of_mem_filter (getElem_mem hlt)
  . dsimp only [Range.onCompact]
    rw [hsplit, h.count_eq, drop_left, ← h.ahead_eq, filter_filter]
    simp only [Bool.and_self]

theorem RangeRel.append (h : RangeRel ops entries ahead r) (hx : liveEntry ops x = true)
    : RangeRel ops (entries ++ [x]) (ahead ++ [x]) r := by
  constructor
  . rw [length_append]
    have := h.i_le
    omega
  . rw [take_append_of_le_length h.i_le]
    exact h.count_eq
  . intro hlt
    by_cases hlast : r.i < entries.length
    . rw [getElem_append_left hlast]
      exact h.front_live hlast
    have := h.i_le
    simp only [getElem_append_right (Nat.not_lt.mp hlast), getElem_singleton]
    exact hx
  . rw [drop_append_of_le_length h.i_le, filter_append, h.ahead_eq]
    simp [hx]

theorem RangeRel.map (h : RangeRel ops entries ahead r) (hf : ∀ x, liveEntry ops (f x) = liveEntry ops x)
    : RangeRel ops (entries.map f) (ahead.map f) r := by
  have hfilter : ∀ l : List (Nat × T), (l.map f).filter (liveEntry ops) = (l.filter (liveEntry ops)).map f := by
    intro l
    rw [filter_map]
    congr 1
    exact filter_congr (fun x _ => hf x)
  constructor
  . rw [length_map]
    exact h.i_le
  . rw [← map_take, hfilter, length_map]
    exact h.count_eq
  . intro hlt
    rw [length_map] at hlt
    rw [getElem_map, hf]
    exact h.front_live hlt
  . rw [← map_drop, hfilter, h.ahead_eq]

theorem RangeRel.onRemove (h : RangeRel ops entries ahead r) (hj : j < entries.length)
    (hlive : liveEntry ops entries[j] = true) (hdead : liveEntry ops (f entries[j]) = false)
    (hahead : ((entries.modify j f).drop r.i).filter (liveEntry ops) = ahead')
    : RangeRel ops (entries.modify j f) ahead' (r.onRemove ops ((entries.modify j f).map Prod.snd) j) := by
  have hlen : (entries.modify j f).length = entries.length := length_modify _ _ _
  have hi := h.i_le
  have hcount := h.count_eq
  unfold Range.onRemove
  by_cases hlt : j < r.i
  . have hmodify : (entries.modify j f).take r.i = (entries.take r.i).modify j f := by
      rw [take_modify]
    have hlen' : (entries.take r.i).length = r.i := by
      rw [length_take]
      omega
    have hone := Lists.length_filter_modify (p := liveEntry ops) (l := entries.take r.i) (f := f)
      (j := j) (by omega) (by rw [getElem_take]; exact hlive)
      (by rw [getElem_take]; exact hdead)
    rw [if_pos hlt]
    dsimp only
    rw [if_neg (by omega)]
    constructor
    . rw [hlen]
      exact hi
    . dsimp only
      rw [hmodify]
      omega
    . intro hlt'
      rw [hlen] at hlt'
      rw [getElem_modify, if_neg (by dsimp only; omega)]
      exact h.front_live hlt'
    . exact hahead
  have htake : (entries.modify j f).take r.i = entries.take r.i := by
    rw [take_modify, modify_eq_self]
    rw [length_take]
    omega
  rw [if_neg hlt]
  dsimp only
  by_cases heq : j = r.i
  . rw [if_pos heq]
    apply RangeRel.seek
    . omega
    . rw [htake]
      exact hcount
    . exact hahead
  rw [if_neg heq]
  constructor
  . omega
  . rw [htake]
    exact hcount
  . intro hlt'
    rw [hlen] at hlt'
    rw [getElem_modify, if_neg heq]
    exact h.front_live hlt'
  . exact hahead

structure Refines (ops : Ops T K) (t : OrderedHashTable T) (c : InsertionOrder T)
    (entries : List (Nat × T)) : Prop where
  wellFormed : WellFormed ops t
  ordered : c.Ordered
  data_eq : entries.map Prod.snd = t.data
  entries_eq : entries.filter (liveEntry ops) = c.entries
  buffers_nodup : (t.allRanges.map Prod.fst).Nodup
  ranges : ∀ r ∈ t.allRanges, RangeRel ops entries (c.ahead r.1) r.2

variable {t : OrderedHashTable T} {c : InsertionOrder T}

theorem Refines.length_eq (h : Refines ops t c entries) : entries.length = t.data.length := by
  rw [← h.data_eq, length_map]

theorem Refines.live_eq (h : Refines ops t c entries) : t.data.filter ops.live = c.entries.map Prod.snd := by
  rw [← h.data_eq, ← h.entries_eq, filter_map]
  rfl

theorem Refines.compact (h : Refines ops t c entries) (hcompact : IsCompacted ops t t')
    : Refines ops t' c (entries.filter (liveEntry ops)) := by
  constructor
  . exact hcompact.wellFormed h.wellFormed
  . exact h.ordered
  . rw [hcompact.data_eq, ← h.data_eq, filter_map]
    rfl
  . rw [filter_filter]
    simp only [Bool.and_self]
    exact h.entries_eq
  . rw [hcompact.allRanges_eq, map_map]
    exact h.buffers_nodup
  . intro r hr
    rw [hcompact.allRanges_eq, mem_map] at hr
    obtain ⟨r', hr', rfl⟩ := hr
    exact (h.ranges r' hr').compact

variable {alloc : AllocPolicy}

theorem Refines.reserve (h : Refines ops t c entries)
    (hreserve : reserve ops alloc t = some t') : ∃ entries', Refines ops t' c entries' := by
  unfold OrderedHashTable.reserve at hreserve
  split at hreserve
  . exact ⟨_, h.compact (rehash_isCompacted h.wellFormed hreserve)⟩
  . cases hreserve
    exact ⟨entries, h⟩

theorem Refines.append {element : T} (h : Refines ops t c entries) (hlive : ops.live element = true)
    (hnew : ∀ d ∈ t.data, ops.live d = true → ops.match_ (ops.getKey d) (ops.getKey element) = false)
    : Refines ops (append ops t element) (c.put (fun d => ops.match_ (ops.getKey d) (ops.getKey element)) element)
        (entries ++ [(c.next, element)]) := by
  have hany : c.entries.any (fun x => ops.match_ (ops.getKey x.2) (ops.getKey element)) = false := by
    rw [any_eq_false]
    intro x hx
    have hmem : x.2 ∈ t.data.filter ops.live := by
      rw [h.live_eq]
      exact mem_map_of_mem hx
    rw [mem_filter] at hmem
    simp [hnew x.2 hmem.1 hmem.2]
  have hfilter : (t.data ++ [element]).filter ops.live = t.data.filter ops.live ++ [element] := by
    rw [filter_append]
    simp [hlive]
  constructor
  . constructor
    . dsimp only [OrderedHashTable.append]
      rw [hfilter, length_append, h.wellFormed.liveCount_eq]
      rfl
    . exact h.wellFormed.chained.append element
    dsimp only [OrderedHashTable.append]
    rw [hfilter, pairwise_append]
    refine ⟨h.wellFormed.distinct, by simp, ?_⟩
    intro d hd e he
    rw [mem_singleton] at he
    rw [he]
    rw [mem_filter] at hd
    exact hnew d hd.1 hd.2
  . exact InsertionOrder.put_ordered h.ordered
  . dsimp only [OrderedHashTable.append]
    rw [map_append, h.data_eq]
    rfl
  . unfold InsertionOrder.put
    rw [if_neg (by rw [hany]; exact Bool.false_ne_true), filter_append, h.entries_eq]
    simp [liveEntry, hlive]
  . exact h.buffers_nodup
  . intro r hr
    rw [InsertionOrder.ahead_put_new h.ordered hany]
    exact (h.ranges r hr).append hlive

def changeEntry (ops : Ops T K) (l : K) (f : T → T) (x : Nat × T) : Nat × T :=
  (x.1, changeMatching ops l f x.2)

theorem map_changeEntry (l : K) (f : T → T) (entries : List (Nat × T))
    : (entries.map (changeEntry ops l f)).map Prod.snd = (entries.map Prod.snd).map (changeMatching ops l f) := by
  rw [map_map, map_map]
  rfl

theorem live_changeMatching (hf : ∀ d, ops.live (f d) = true) (d : T)
    : ops.live (changeMatching ops l f d) = ops.live d := by
  unfold changeMatching
  split
  . next h =>
    rw [Bool.and_eq_true] at h
    rw [hf, h.1]
  . rfl

theorem filter_changeEntry_live (hf : ∀ d, ops.live (f d) = true) (entries : List (Nat × T))
    : (entries.map (changeEntry ops l f)).filter (liveEntry ops) = (entries.filter (liveEntry ops)).map
        (fun x => if ops.match_ (ops.getKey x.2) l then (x.1, f x.2) else x) := by
  rw [filter_map]
  have hlive : liveEntry ops ∘ changeEntry ops l f = liveEntry ops := by
    funext x
    exact live_changeMatching hf x.2
  rw [hlive]
  apply map_congr_left
  intro x hx
  have := of_mem_filter hx
  unfold liveEntry at this
  unfold changeEntry changeMatching
  rw [this, Bool.true_and]
  split <;> rfl

theorem filter_changeEntry_dead (hf : ∀ d, ops.live (f d) = false) (entries : List (Nat × T))
    : (entries.map (changeEntry ops l f)).filter (liveEntry ops) =
      (entries.filter (liveEntry ops)).filter (fun x => !ops.match_ (ops.getKey x.2) l) := by
  induction entries with
  | nil => rfl
  | cons x entries ih =>
    rw [map_cons, filter_cons, filter_cons, ih]
    cases hlive : ops.live x.2 with
    | false => simp [liveEntry, changeEntry, changeMatching, hlive]
    | true =>
      cases hmatch : ops.match_ (ops.getKey x.2) l with
      | false => simp [liveEntry, changeEntry, changeMatching, hlive, hmatch]
      | true => simp [liveEntry, changeEntry, changeMatching, hlive, hmatch, hf]

theorem filter_live_map (entries : List (Nat × T))
    : (entries.map Prod.snd).filter ops.live = (entries.filter (liveEntry ops)).map Prod.snd := by
  rw [filter_map]
  rfl

theorem match_changeMatching {element d e : T}
    (h : ops.match_ (ops.getKey (changeMatching ops (ops.getKey element) (fun _ => element) d))
      (ops.getKey (changeMatching ops (ops.getKey element) (fun _ => element) e)) = true)
    : ops.match_ (ops.getKey d) (ops.getKey e) = true := by
  unfold changeMatching at h
  split at h
  . next hd =>
    rw [Bool.and_eq_true] at hd
    split at h
    . next he =>
      rw [Bool.and_eq_true] at he
      exact ops.match_trans _ _ _ hd.2 (ops.match_symm _ _ he.2)
    . exact ops.match_trans _ _ _ hd.2 h
  . split at h
    . next he =>
      rw [Bool.and_eq_true] at he
      exact ops.match_trans _ _ _ h (ops.match_symm _ _ he.2)
    . exact h

theorem Refines.replace {element : T} (h : Refines ops t c entries) (hlive : ops.live element = true)
    (hlookup : lookup ops t (ops.getKey element) (ops.prepareHash (ops.getKey element)) = some e)
    : Refines ops { t with data := t.data.set e element }
        (c.put (fun d => ops.match_ (ops.getKey d) (ops.getKey element)) element)
        (entries.map (changeEntry ops (ops.getKey element) (fun _ => element))) := by
  have he := lookup_lt h.wellFormed hlookup
  have hl := live_eq_true.mp hlive
  have hdata : t.data.set e element = t.data.map (changeMatching ops (ops.getKey element) (fun _ => element)) := by
    rw [← modify_lookup h.wellFormed hl hlookup, set_eq_modify]
  have hmatch := lookup_some h.wellFormed hl hlookup
  have hfound := (hmatch e he).mpr rfl
  rw [Bool.and_eq_true] at hfound
  have hany : c.entries.any (fun x => ops.match_ (ops.getKey x.2) (ops.getKey element)) = true := by
    have hmem : t.data[e] ∈ c.entries.map Prod.snd := by
      rw [← h.live_eq, mem_filter]
      exact ⟨getElem_mem he, hfound.1⟩
    obtain ⟨x, hx, heq⟩ := mem_map.mp hmem
    rw [any_eq_true]
    refine ⟨x, hx, ?_⟩
    rw [heq]
    exact hfound.2
  have hkeep : ∀ d, ops.live (changeMatching ops (ops.getKey element) (fun _ => element) d)
      = ops.live d := live_changeMatching (fun _ => hlive)
  have hfilter : (t.data.set e element).filter ops.live = (t.data.filter ops.live).map
          (changeMatching ops (ops.getKey element) (fun _ => element)) := by
    rw [hdata, filter_map]
    congr 1
    exact filter_congr (fun d _ => hkeep d)
  constructor
  . constructor
    . rw [hfilter, length_map]
      exact h.wellFormed.liveCount_eq
    . apply h.wellFormed.chained.congr
      . rw [length_set]
      intro j hj hj' hlive'
      dsimp only at hj' hlive' ⊢
      by_cases heq : e = j
      . subst heq
        refine ⟨hfound.1, ?_⟩
        rw [getElem_set_self]
        unfold bucket
        rw [ops.prepareHash_eq _ _ hfound.2]
      . rw [getElem_set_ne heq] at hlive' ⊢
        exact ⟨hlive', rfl⟩
    . rw [hfilter, pairwise_map]
      apply h.wellFormed.distinct.imp
      intro d d' hne
      rw [← Bool.not_eq_true] at hne ⊢
      exact fun hsame => hne (match_changeMatching hsame)
  . exact put_ordered h.ordered
  . rw [map_changeEntry, h.data_eq]
    exact hdata.symm
  . rw [filter_changeEntry_live (fun _ => hlive), h.entries_eq]
    unfold InsertionOrder.put
    rw [if_pos hany]
  . exact h.buffers_nodup
  . intro r hr
    have hr' := h.ranges r hr
    have hmap := hr'.map (f := changeEntry ops (ops.getKey element) (fun _ => element)) (fun x => hkeep x.2)
    rw [InsertionOrder.ahead_put_replace hany]
    have hahead := filter_changeEntry_live (l := ops.getKey element) (fun _ => hlive) (entries.drop r.2.i)
    rw [hr'.ahead_eq] at hahead
    rw [← hahead, map_drop]
    exact ⟨hmap.i_le, hmap.count_eq, hmap.front_live, rfl⟩

theorem Refines.put {element : T} (h : Refines ops t c entries) (alloc : AllocPolicy)
    (hkey : ops.isEmpty (ops.getKey element) = false)
    : ∃ entries', Refines ops (put ops alloc t element).1
        (abstractStep ops c (.put element alloc, (put ops alloc t element).2)) entries' := by
  have hlive := live_eq_true.mpr hkey
  unfold OrderedHashTable.put
  split
  . next e hlookup => exact ⟨_, h.replace hlive hlookup⟩
  next hlookup =>
  split
  . next t' hreserve =>
    obtain ⟨entries', h'⟩ := h.reserve hreserve
    refine ⟨_, h'.append hlive ?_⟩
    intro d hd hdlive
    have hmem : d ∈ t.data.filter ops.live := by
      rw [h.live_eq, ← h'.live_eq, mem_filter]
      exact ⟨hd, hdlive⟩
    exact lookup_none h.wellFormed hlookup d (mem_filter.mp hmem).1 hdlive
  . exact ⟨entries, h⟩

theorem Refines.removeEntry (h : Refines ops t c entries)
    (hl : ops.isEmpty l = false) (hlookup : lookup ops t l (ops.prepareHash l) = some e)
    : Refines ops (removeEntry ops t e) (c.removeIf (fun d => ops.match_ (ops.getKey d) l))
        (entries.map (changeEntry ops l ops.makeEmpty)) := by
  have he := lookup_lt h.wellFormed hlookup
  have hdata := modify_lookup h.wellFormed hl hlookup ops.makeEmpty
  have hfound := (lookup_some h.wellFormed hl hlookup e he).mpr rfl
  rw [Bool.and_eq_true] at hfound
  have hdata' : (entries.map (changeEntry ops l ops.makeEmpty)).map Prod.snd = t.data.modify e ops.makeEmpty := by
    rw [map_changeEntry, h.data_eq, hdata]
  have hentries : (entries.map (changeEntry ops l ops.makeEmpty)).filter (liveEntry ops)
      = (c.removeIf (fun d => ops.match_ (ops.getKey d) l)).entries := by
    rw [filter_changeEntry_dead live_makeEmpty, h.entries_eq]
    rfl
  constructor
  . constructor
    . have := Lists.length_filter_modify (p := ops.live) (f := ops.makeEmpty) he hfound.1 (live_makeEmpty _)
      have hcount := h.wellFormed.liveCount_eq
      dsimp only [OrderedHashTable.removeEntry, forEachRange]
      omega
    . apply h.wellFormed.chained.congr
      . exact length_modify _ _ _
      intro j hj hj' hlive
      dsimp only [OrderedHashTable.removeEntry, forEachRange] at hj' hlive ⊢
      rw [getElem_modify] at hlive
      by_cases heq : e = j
      . rw [if_pos heq, live_makeEmpty] at hlive
        contradiction
      rw [if_neg heq] at hlive
      rw [getElem_modify, if_neg heq]
      exact ⟨hlive, rfl⟩
    . have hdistinct := h.wellFormed.distinct
      dsimp only [OrderedHashTable.removeEntry, forEachRange]
      rw [← hdata', filter_live_map, hentries]
      rw [h.live_eq] at hdistinct
      exact hdistinct.sublist (filter_sublist.map _)
  . exact InsertionOrder.removeIf_ordered h.ordered
  . exact hdata'
  . exact hentries
  . unfold OrderedHashTable.removeEntry
    rw [allRanges_forEachRange, map_map]
    exact h.buffers_nodup
  intro r hr
  unfold OrderedHashTable.removeEntry at hr
  rw [allRanges_forEachRange, mem_map] at hr
  obtain ⟨r', hr', rfl⟩ := hr
  have hrel := h.ranges r' hr'
  have hlen := h.length_eq
  have hget : ∀ k (hk : k < entries.length) (hk' : k < t.data.length), t.data[k] = entries[k].2 := by
    intro k hk hk'
    simp only [← h.data_eq, getElem_map]
  have hmodify : entries.map (changeEntry ops l ops.makeEmpty)
      = entries.modify e (fun x => (x.1, ops.makeEmpty x.2)) := by
    have := Lists.modify_eq_map (l := entries) (p := fun x => ops.live x.2 && ops.match_ (ops.getKey x.2) l)
      (f := fun x => (x.1, ops.makeEmpty x.2)) (j := e) (by
        intro k hk
        rw [← hget k hk (by omega)]
        exact lookup_some h.wellFormed hl hlookup k (by omega))
    rw [this]
    apply map_congr_left
    intro x _
    unfold changeEntry changeMatching
    split <;> rfl
  have hahead : ((entries.modify e (fun x => (x.1, ops.makeEmpty x.2))).drop r'.2.i).filter (liveEntry ops)
      = (c.removeIf (fun d => ops.match_ (ops.getKey d) l)).ahead r'.1 := by
    rw [← hmodify, ← map_drop, filter_changeEntry_dead live_makeEmpty, hrel.ahead_eq, ahead_removeIf]
  have he' : e < entries.length := by omega
  have hlive : liveEntry ops entries[e] = true := by
    unfold liveEntry
    rw [← hget e he' he]
    exact hfound.1
  have hdead : liveEntry ops (entries[e].1, ops.makeEmpty entries[e].2) = false :=
    live_makeEmpty _
  have hrel' := hrel.onRemove (f := fun x => (x.1, ops.makeEmpty x.2)) he' hlive hdead hahead
  rw [← hmodify, hdata'] at hrel'
  exact hrel'

theorem Refines.shrink (h : Refines ops t c entries) (alloc : AllocPolicy)
    : ∃ entries', Refines ops (shrink ops alloc t).1 c entries' := by
  unfold OrderedHashTable.shrink
  split
  . split
    . next hrehash => exact ⟨_, h.compact (rehash_isCompacted h.wellFormed hrehash)⟩
    . exact ⟨entries, h⟩
  . exact ⟨entries, h⟩

theorem Refines.removeIf_eq (h : Refines ops t c entries) (hlookup : lookup ops t l (ops.prepareHash l) = none)
    : c.removeIf (fun d => ops.match_ (ops.getKey d) l) = c := by
  have hfilter : c.entries.filter (fun x => !ops.match_ (ops.getKey x.2) l) = c.entries := by
    rw [filter_eq_self]
    intro x hx
    have hmem : x.2 ∈ t.data.filter ops.live := by
      rw [h.live_eq]
      exact mem_map_of_mem hx
    rw [mem_filter] at hmem
    rw [lookup_none h.wellFormed hlookup x.2 hmem.1 hmem.2]
    rfl
  unfold removeIf
  rw [hfilter]

theorem Refines.remove (h : Refines ops t c entries) (alloc : AllocPolicy) (hl : ops.isEmpty l = false)
    : ∃ entries', Refines ops (remove ops alloc t l).1
        (c.removeIf (fun d => ops.match_ (ops.getKey d) l)) entries' := by
  unfold OrderedHashTable.remove
  split
  . next hlookup =>
    rw [h.removeIf_eq hlookup]
    exact ⟨entries, h⟩
  . next e hlookup => exact (h.removeEntry hl hlookup).shrink alloc

theorem Refines.cleared (hdata : t.data = [])
    (hlive : t.liveCount = 0) (hhash : t.hashTable = fun _ => []) (hc : c.Ordered)
    (hentries : c.entries = []) (hbuffers : (t.allRanges.map Prod.fst).Nodup)
    (hranges : ∀ r ∈ t.allRanges, r.2 = ⟨0, 0⟩)
    : Refines ops t c [] := by
  have hahead : ∀ id, c.ahead id = [] := by
    intro id
    unfold ahead
    rw [hentries]
    rfl
  constructor
  . constructor
    . rw [hlive, hdata]
      rfl
    . rw [hhash, hdata]
      exact Chained.nil _
    . rw [hdata]
      exact List.Pairwise.nil
  . exact hc
  . exact hdata.symm
  . exact hentries.symm
  . exact hbuffers
  . intro r hr
    rw [hranges r hr, hahead]
    constructor
    . exact Nat.le_refl _
    . rfl
    . intro hlt
      simp at hlt
    . rfl

theorem init_eq (h : init t alloc = some t')
    : t' = { t with
        hashTable := fun _ => []
        data := []
        dataCapacity := capacity initialBuckets
        liveCount := 0
        hashShift := kHashNumberBits - initialBucketsLog2 } := by
  unfold init at h
  split at h
  . cases h
  split at h
  . cases h
  . cases h
    rfl

theorem Refines.clear (h : Refines ops t c entries) (alloc : AllocPolicy)
    : ∃ entries', Refines ops (clear alloc t).1 (abstractStep ops c (.clear alloc, (clear alloc t).2)) entries' := by
  unfold OrderedHashTable.clear
  split
  . split
    . next t' hinit =>
      rw [init_eq hinit]
      refine ⟨[], Refines.cleared rfl rfl rfl (InsertionOrder.clear_ordered h.ordered) rfl ?_ ?_⟩
      . rw [allRanges_forEachRange, map_map]
        exact h.buffers_nodup
      intro r hr
      rw [allRanges_forEachRange, mem_map] at hr
      obtain ⟨r', _, rfl⟩ := hr
      rfl
    . exact ⟨entries, h⟩
  next hlen =>
  have hentries : entries = [] := by
    rw [ne_eq, not_not, ← h.length_eq] at hlen
    exact length_eq_zero_iff.mp hlen
  have hempty : c.entries = [] := by
    rw [← h.entries_eq, hentries]
    rfl
  have hclear : c.clear = c := by
    unfold InsertionOrder.clear
    rw [← hempty]
  unfold abstractStep
  dsimp only
  rw [hclear]
  exact ⟨entries, h⟩

theorem Refines.withRanges {ranges nurseryRanges : List (Nat × Range)}
    (h : Refines ops t c entries) (hc : c'.Ordered) (hentries : c'.entries = c.entries)
    (hbuffers : ((ranges ++ nurseryRanges).map Prod.fst).Nodup)
    (hranges : ∀ r ∈ ranges ++ nurseryRanges, RangeRel ops entries (c'.ahead r.1) r.2)
    : Refines ops { t with ranges := ranges, nurseryRanges := nurseryRanges } c' entries := by
  constructor
  . exact ⟨h.wellFormed.liveCount_eq, h.wellFormed.chained, h.wellFormed.distinct⟩
  . exact hc
  . exact h.data_eq
  . rw [hentries]
    exact h.entries_eq
  . exact hbuffers
  . exact hranges

variable {buffer : Nat}

theorem findRange_some (h : findRange t buffer = some r) : (buffer, r) ∈ t.allRanges := by
  unfold findRange at h
  obtain ⟨⟨id, r'⟩, hfind, heq⟩ := Option.map_eq_some_iff.mp h
  have hid := List.find?_some hfind
  have hmem := mem_of_find?_eq_some hfind
  dsimp only at hid heq
  rw [beq_iff_eq] at hid
  rw [hid, heq] at hmem
  exact hmem

theorem findRange_none (h : (findRange t buffer).isSome = false) : ∀ r ∈ t.allRanges, r.1 ≠ buffer := by
  unfold findRange at h
  rw [Option.isSome_map, ← Bool.not_eq_true, Option.isSome_iff_exists] at h
  intro r hr heq
  apply h
  rw [← Option.isSome_iff_exists, List.find?_isSome]
  exact ⟨r, hr, by simpa using heq⟩

theorem Refines.addRange (inNursery : Bool)
    (h : Refines ops t c entries) (hc : c'.Ordered) (hentries : c'.entries = c.entries)
    (hfree : (findRange t buffer).isSome = false) (hr : RangeRel ops entries (c'.ahead buffer) r)
    (hothers : ∀ id, id ≠ buffer → c'.ahead id = c.ahead id)
    : Refines ops (if inNursery then
          { t with nurseryRanges := (buffer, r) :: t.nurseryRanges } else
          { t with ranges := (buffer, r) :: t.ranges })
        c' entries := by
  have hnot := findRange_none hfree
  have hbuffers : (((buffer, r) :: t.allRanges).map Prod.fst).Nodup := by
    rw [map_cons, nodup_cons]
    refine ⟨?_, h.buffers_nodup⟩
    intro hmem
    obtain ⟨r', hr', heq⟩ := mem_map.mp hmem
    exact hnot r' hr' heq
  have hranges : ∀ r' ∈ (buffer, r) :: t.allRanges, RangeRel ops entries (c'.ahead r'.1) r'.2 := by
    intro r' hr'
    rw [mem_cons] at hr'
    cases hr' with
    | inl hr' =>
      rw [hr']
      exact hr
    | inr hr' =>
      rw [hothers r'.1 (hnot r' hr')]
      exact h.ranges r' hr'
  split
  . have hperm : (t.ranges ++ (buffer, r) :: t.nurseryRanges).Perm ((buffer, r) :: t.allRanges) :=
      perm_middle
    apply h.withRanges hc hentries
    . rw [(hperm.map Prod.fst).nodup_iff]
      exact hbuffers
    . intro r' hr'
      exact hranges r' (hperm.mem_iff.mp hr')
  . exact h.withRanges hc hentries hbuffers hranges

theorem Refines.createRange (h : Refines ops t c entries) (hfree : (findRange t buffer).isSome = false)
    : Refines ops (createRange ops t buffer inNursery) (c.start buffer) entries := by
  unfold OrderedHashTable.createRange
  apply h.addRange inNursery (InsertionOrder.start_ordered h.ordered) rfl hfree
  . rw [← h.data_eq, InsertionOrder.ahead_start_self]
    apply RangeRel.seek
    . omega
    . rfl
    . exact h.entries_eq
  . intro id hid
    exact c.ahead_start_of_ne hid

theorem Refines.copyRange {other : Nat} (h : Refines ops t c entries)
    (hother : findRange t other = some r) (hfree : (findRange t buffer).isSome = false)
    : Refines ops (copyRange t buffer r) (c.fork buffer other) entries := by
  unfold OrderedHashTable.copyRange
  have hrange : RangeRel ops entries ((c.fork buffer other).ahead buffer) r := by
    rw [InsertionOrder.ahead_fork_self]
    exact h.ranges _ (findRange_some hother)
  have hadd := h.addRange false (InsertionOrder.fork_ordered h.ordered) rfl hfree hrange
    (fun id hid => c.ahead_fork_of_ne other hid)
  rw [if_neg Bool.false_ne_true] at hadd
  exact hadd

theorem Refines.dropRanges {ranges nurseryRanges : List (Nat × Range)}
    (h : Refines ops t c entries) (hranges : ranges.Sublist t.ranges) (hnursery : nurseryRanges.Sublist t.nurseryRanges)
    : Refines ops { t with ranges := ranges, nurseryRanges := nurseryRanges } c entries := by
  have hsub : (ranges ++ nurseryRanges).Sublist t.allRanges := hranges.append hnursery
  apply h.withRanges h.ordered rfl
  . exact h.buffers_nodup.sublist (hsub.map _)
  . intro r hr
    exact h.ranges r (hsub.subset hr)

theorem RangeRel.ahead_cons (h : RangeRel ops entries ahead r) (hlt : r.i < entries.length)
    : ahead = entries[r.i] :: (entries.drop (r.i + 1)).filter (liveEntry ops) := by
  rw [← h.ahead_eq, drop_eq_getElem_cons hlt, filter_cons_of_pos (h.front_live hlt)]

theorem RangeRel.popFront (h : RangeRel ops entries (x :: ahead) r)
    (hdata : entries.map Prod.snd = t.data) (hlt : r.i < entries.length)
    : RangeRel ops entries ahead (r.popFront ops t) := by
  have hcons := h.ahead_cons hlt
  rw [List.cons.injEq] at hcons
  unfold Range.popFront
  rw [← hdata]
  apply RangeRel.seek
  . omega
  . rw [take_succ_eq_append_getElem hlt, filter_append, length_append, ← h.count_eq]
    simp [h.front_live hlt]
  . exact hcons.2.symm

theorem RangeRel.front_eq (h : RangeRel ops entries ahead r) (hdata : entries.map Prod.snd = t.data)
    : r.front t = ahead.head?.map Prod.snd := by
  unfold Range.front
  rw [← hdata, List.getElem?_map]
  by_cases hlt : r.i < entries.length
  . rw [h.ahead_cons hlt, List.getElem?_eq_getElem hlt, List.head?_cons]
  . rw [List.getElem?_eq_none (by omega), ← h.ahead_eq, drop_of_length_le (by omega)]
    rfl

theorem RangeRel.drain_eq (h : RangeRel ops entries ahead r) (hdata : entries.map Prod.snd = t.data)
    : r.drain ops t = ahead.map Prod.snd := by
  induction ahead generalizing r with
  | nil =>
    have hfront := h.front_eq hdata
    unfold Range.drain
    split
    . rfl
    next hsome =>
    rw [hsome] at hfront
    cases hfront
  | cons x ahead ih =>
    have hfront := h.front_eq hdata
    have hlt : r.i < entries.length := by
      unfold Range.front at hfront
      have := (List.getElem?_eq_some_iff.mp hfront).1
      rw [← hdata, length_map] at this
      exact this
    unfold Range.drain
    split
    . next hnone =>
      rw [hnone] at hfront
      cases hfront
    next e hsome =>
    rw [hsome] at hfront
    cases hfront
    rw [ih (h.popFront hdata hlt)]
    rfl

theorem Refines.popFront (h : Refines ops t c entries) (hr : findRange t buffer = some r) (hfront : r.front t = some e)
    : Refines ops (popFront ops t buffer) (c.advance buffer) entries ∧ ∃ n, (c.ahead buffer).head? = some (n, e) := by
  have hmem := findRange_some hr
  have hrel := h.ranges _ hmem
  have hhead := hrel.front_eq h.data_eq
  rw [hfront] at hhead
  obtain ⟨⟨n, e'⟩, hahead, heq⟩ := Option.map_eq_some_iff.mp hhead.symm
  dsimp only at heq
  subst heq
  refine ⟨?_, n, hahead⟩
  obtain ⟨rest, hcons⟩ := List.head?_eq_some_iff.mp hahead
  have hlt : r.i < entries.length := by
    unfold Range.front at hfront
    have := (List.getElem?_eq_some_iff.mp hfront).1
    have := h.length_eq
    omega
  have hrel' := hrel
  rw [hcons] at hrel'
  have hpop := hrel'.popFront h.data_eq hlt
  let pop := fun r : Nat × Range => if r.1 = buffer then (r.1, r.2.popFront ops t) else r
  have hall : t.ranges.map pop ++ t.nurseryRanges.map pop = t.allRanges.map pop :=
    (map_append).symm
  have hfst : ∀ r : Nat × Range, (pop r).1 = r.1 := by
    intro r
    dsimp only [pop]
    split <;> rfl
  apply h.withRanges (advance_ordered h.ordered) (c.advance_entries buffer)
  . have hfst' : Prod.fst ∘ pop = Prod.fst := funext hfst
    rw [hall, map_map, hfst']
    exact h.buffers_nodup
  intro r' hr'
  rw [hall, mem_map] at hr'
  obtain ⟨r'', hr'', rfl⟩ := hr'
  rw [hfst]
  by_cases hid : r''.1 = buffer
  . have hsame : r'' = (buffer, r) :=
      inj_on_of_nodup_map h.buffers_nodup hr'' hmem hid
    dsimp only [pop]
    rw [if_pos hid, hsame, ahead_advance_self h.ordered hcons]
    exact hpop
  . dsimp only [pop]
    rw [if_neg hid, c.ahead_advance_of_ne hid]
    exact h.ranges r'' hr''

structure System.Exact (ops : Ops T K) (s : System T K) : Prop where
  refines : ∃ entries, Refines ops s.table (abstractRun ops s.history) entries
  visited_eq : ∀ buffer,
    s.visited buffer = ((abstractRun ops s.history).visited buffer).map Prod.snd

theorem abstractRun_append (history : List (Op T K × Bool)) (call : Op T K × Bool)
    : abstractRun ops (history ++ [call]) = abstractStep ops (abstractRun ops history) call := by
  unfold abstractRun
  rw [foldl_append]
  rfl

variable {s : System T K}

theorem System.Exact.call {table : OrderedHashTable T} {call : Op T K × Bool}
    (h : s.Exact ops)
    (hrefines : ∃ entries, Refines ops table (abstractStep ops (abstractRun ops s.history) call) entries)
    (hvisited : (abstractStep ops (abstractRun ops s.history) call).visited = (abstractRun ops s.history).visited)
    : System.Exact ops ⟨table, s.history ++ [call], s.visited⟩ := by
  constructor
  . rw [abstractRun_append]
    exact hrefines
  intro buffer
  rw [abstractRun_append, hvisited]
  exact h.visited_eq buffer

theorem System.Exact.callRange {table : OrderedHashTable T} (call : Op T K × Bool)
    (visited : List (Nat × T)) (h : s.Exact ops)
    (hrefines : ∃ entries, Refines ops table (abstractStep ops (abstractRun ops s.history) call) entries)
    (hvisited : (abstractStep ops (abstractRun ops s.history) call).visited
      = Function.update (abstractRun ops s.history).visited buffer visited)
    : System.Exact ops ⟨table, s.history ++ [call], Function.update s.visited buffer (visited.map Prod.snd)⟩ := by
  constructor
  . rw [abstractRun_append]
    exact hrefines
  intro buffer'
  rw [abstractRun_append, hvisited]
  by_cases hbuffer : buffer' = buffer
  . rw [hbuffer]
    simp
  . simp only [Function.update_of_ne hbuffer]
    exact h.visited_eq buffer'

theorem put_visited (same : T → Bool) (e : T) (c : InsertionOrder T)
    : (c.put same e).visited = c.visited := by
  unfold InsertionOrder.put
  split <;> rfl

theorem System.Exact.step (h : s.Exact ops) (hstep : s.step ops op = some s') : s'.Exact ops := by
  obtain ⟨entries, hrefines⟩ := h.refines
  cases op with
  | put element alloc =>
    simp only [System.step] at hstep
    split at hstep
    . cases hstep
    next hkey =>
    cases hstep
    apply h.call (hrefines.put alloc (by simpa using hkey))
    unfold abstractStep
    cases (put ops alloc s.table element).2 with
    | true => exact put_visited _ _ _
    | false => rfl
  | remove l alloc =>
    simp only [System.step] at hstep
    split at hstep
    . cases hstep
    next hkey =>
    cases hstep
    exact h.call (hrefines.remove alloc (by simpa using hkey)) rfl
  | clear alloc =>
    cases hstep
    apply h.call (hrefines.clear alloc)
    unfold abstractStep
    cases (clear alloc s.table).2 with
    | true => rfl
    | false => rfl
  | createRange buffer inNursery =>
    simp only [System.step] at hstep
    split at hstep
    . cases hstep
    next hfree =>
    cases hstep
    exact h.callRange (.createRange buffer inNursery, true) []
      ⟨entries, hrefines.createRange (by simpa using hfree)⟩ rfl
  | copyRange buffer other =>
    simp only [System.step] at hstep
    split at hstep
    . cases hstep
    next r hother =>
    split at hstep
    . cases hstep
    next hfree =>
    cases hstep
    rw [h.visited_eq other]
    exact h.callRange (.copyRange buffer other, true) _ ⟨entries, hrefines.copyRange hother (by simpa using hfree)⟩ rfl
  | destroyRange buffer =>
    cases hstep
    exact h.call ⟨entries, hrefines.dropRanges filter_sublist filter_sublist⟩ rfl
  | destroyNurseryRanges =>
    cases hstep
    exact h.call ⟨entries, hrefines.dropRanges (List.Sublist.refl _) (nil_sublist _)⟩ rfl
  | popFront buffer =>
    simp only [System.step] at hstep
    split at hstep
    . cases hstep
    next e hfront =>
    cases hstep
    obtain ⟨r, hr, hfront⟩ := Option.bind_eq_some_iff.mp hfront
    obtain ⟨hpop, n, hahead⟩ := hrefines.popFront hr hfront
    have hvisited := advance_visited hahead
    have hcall := h.callRange (.popFront buffer, true) _ ⟨entries, hpop⟩ hvisited
    rw [map_append, ← h.visited_eq buffer] at hcall
    exact hcall

theorem System.new_exact (h : System.new alloc = some s) : s.Exact ops := by
  unfold System.new OrderedHashTable.new at h
  obtain ⟨t, hinit, rfl⟩ := Option.map_eq_some_iff.mp h
  rw [init_eq hinit]
  constructor
  . exact ⟨[], Refines.cleared rfl rfl rfl InsertionOrder.empty_ordered rfl (by simp [allRanges]) (by simp [allRanges])⟩
  . intro buffer
    rfl

theorem System.new_history (h : System.new alloc = some s)
    : s.history.map Prod.fst = [] := by
  unfold System.new at h
  obtain ⟨t, _, rfl⟩ := Option.map_eq_some_iff.mp h
  rfl

theorem System.step_history (h : s.step ops op = some s')
    : s'.history.map Prod.fst = s.history.map Prod.fst ++ [op] := by
  cases op <;> simp only [System.step] at h <;> grind

section Bounds

variable {t t' : OrderedHashTable T}

-- The elements lie in the allocated data vector, whose size is as the comments say.
structure InBounds (t : OrderedHashTable T) : Prop where
  dataCapacity_eq : t.dataCapacity = 2 ^ (kHashNumberBits - t.hashShift) * 8 / 3
  hashShift_ge : 2 ≤ t.hashShift
  hashShift_le : t.hashShift ≤ 31
  length_le : t.data.length ≤ t.dataCapacity

theorem capacity_eq {hashShift : Nat} (h : 2 ≤ hashShift)
    : capacity (1 <<< (kHashNumberBits - hashShift)) = 2 ^ (kHashNumberBits - hashShift) * 8 / 3 := by
  have hle : 2 ^ (kHashNumberBits - hashShift) ≤ 2 ^ 30 :=
    Nat.pow_le_pow_right (by decide) (show 32 - hashShift ≤ 30 by omega)
  unfold capacity
  rw [Nat.one_shiftLeft]
  exact Nat.mod_eq_of_lt (by omega)

theorem WellFormed.liveCount_le (h : WellFormed ops t) : t.liveCount ≤ t.data.length := by
  rw [h.liveCount_eq]
  exact length_filter_le _ _

theorem rehash_fields {newHashShift : Nat} (h : WellFormed ops t) (hrehash : rehash ops alloc newHashShift t = some t')
    : t'.hashShift = newHashShift ∧ t'.data.length = t.liveCount
      ∧ t'.dataCapacity
        = if newHashShift = t.hashShift then t.dataCapacity else capacity (1 <<< (kHashNumberBits - newHashShift)) := by
  have hlength : t'.data.length = t.liveCount := by
    rw [(rehash_isCompacted h hrehash).data_eq, h.liveCount_eq]
  unfold rehash at hrehash
  split at hrehash
  next heq =>
    cases hrehash
    exact ⟨heq.symm, hlength, (if_pos heq).symm⟩
  next hne =>
    split at hrehash
    . cases hrehash
    split at hrehash
    . cases hrehash
    cases hrehash
    exact ⟨rfl, hlength, (if_neg hne).symm⟩

theorem InBounds.rehash (hbounds : InBounds t) (h : WellFormed ops t) {newHashShift : Nat}
    (hrehash : rehash ops alloc newHashShift t = some t') (hge : 2 ≤ newHashShift) (hle : newHashShift ≤ 31)
    (hfits : t.liveCount ≤ 2 ^ (kHashNumberBits - newHashShift) * 8 / 3) : InBounds t' := by
  obtain ⟨hshift, hlength, hcapacity⟩ := rehash_fields h hrehash
  have heq : t'.dataCapacity = 2 ^ (kHashNumberBits - t'.hashShift) * 8 / 3 := by
    rw [hcapacity, hshift]
    split
    next hsame => rw [hsame, hbounds.dataCapacity_eq]
    next => exact capacity_eq hge
  exact ⟨heq, hshift ▸ hge, hshift ▸ hle, by rw [heq, hlength, hshift]; exact hfits⟩

-- A new key is put into a table that has no room for it and is grown.
def Grows (ops : Ops T K) (t : OrderedHashTable T) (element : T) (alloc : AllocPolicy) : Prop :=
  lookup ops t (ops.getKey element) (ops.prepareHash (ops.getKey element)) = none
    ∧ t.data.length = t.dataCapacity ∧ 3 * t.dataCapacity ≤ 4 * t.liveCount ∧ alloc.hashTable = true ∧ alloc.data = true

theorem InBounds.reserve (hbounds : InBounds t) (h : WellFormed ops t) {alloc : AllocPolicy}
    (hfits : t.data.length = t.dataCapacity → 3 * t.dataCapacity ≤ 4 * t.liveCount → alloc.hashTable = true
      → alloc.data = true → hashBuckets t < 2 ^ 30) (hreserve : reserve ops alloc t = some t')
    : InBounds t' ∧ t'.data.length < t'.dataCapacity := by
  have hlive := h.liveCount_le
  have hcapacity := hbounds.dataCapacity_eq
  have hge := hbounds.hashShift_ge
  have hle := hbounds.hashShift_le
  have hlength := hbounds.length_le
  have hpos : 0 < 2 ^ (kHashNumberBits - t.hashShift) := Nat.two_pow_pos _
  unfold OrderedHashTable.reserve at hreserve
  split at hreserve
  next hfull =>
    split at hreserve
    next hmost =>
      have hgranted : alloc.hashTable = true ∧ alloc.data = true := by
        unfold OrderedHashTable.rehash at hreserve
        rw [if_neg (by omega)] at hreserve
        cases hhash : alloc.hashTable <;> cases hdata : alloc.data <;> simp [hhash, hdata] at hreserve ⊢
      have hbuckets := hfits hfull hmost hgranted.1 hgranted.2
      unfold hashBuckets at hbuckets
      rw [Nat.one_shiftLeft] at hbuckets
      have hshift : 3 ≤ t.hashShift := by
        have hlt := (Nat.pow_lt_pow_iff_right (by decide)).mp hbuckets
        unfold kHashNumberBits at hlt
        omega
      have hdouble : 2 ^ (kHashNumberBits - (t.hashShift - 1)) = 2 ^ (kHashNumberBits - t.hashShift) * 2 := by
        rw [← Nat.pow_succ]
        congr 1
        unfold kHashNumberBits
        omega
      have hbounds' := hbounds.rehash h hreserve (by omega) (by omega) (by omega)
      obtain ⟨hshift', hlength', _⟩ := rehash_fields h hreserve
      refine ⟨hbounds', ?_⟩
      rw [hbounds'.dataCapacity_eq, hshift', hlength', hdouble]
      omega
    next hmost =>
      have hbounds' := hbounds.rehash h hreserve hge hle (by omega)
      obtain ⟨_, hlength', hcapacity'⟩ := rehash_fields h hreserve
      rw [if_pos rfl] at hcapacity'
      exact ⟨hbounds', by omega⟩
  next hroom =>
    cases hreserve
    exact ⟨hbounds, by omega⟩

theorem InBounds.put (hbounds : InBounds t) (h : WellFormed ops t) {element : T} {alloc : AllocPolicy}
    (hfits : Grows ops t element alloc → hashBuckets t < 2 ^ 30) : InBounds (put ops alloc t element).1 := by
  unfold OrderedHashTable.put
  split
  next => exact ⟨hbounds.dataCapacity_eq, hbounds.hashShift_ge, hbounds.hashShift_le, by
      rw [length_set]
      exact hbounds.length_le⟩
  next hlookup =>
    split
    next t' hreserve =>
      obtain ⟨hbounds', hroom⟩ := hbounds.reserve h
        (fun hfull hmost hhash hdata => hfits ⟨hlookup, hfull, hmost, hhash, hdata⟩) hreserve
      refine ⟨hbounds'.dataCapacity_eq, hbounds'.hashShift_ge, hbounds'.hashShift_le, ?_⟩
      unfold append
      rw [length_append]
      exact hroom
    next => exact hbounds

theorem InBounds.shrink (hbounds : InBounds t) (h : WellFormed ops t) (alloc : AllocPolicy)
    : InBounds (shrink ops alloc t).1 := by
  have hcapacity := hbounds.dataCapacity_eq
  have hge := hbounds.hashShift_ge
  have hlength := hbounds.length_le
  unfold OrderedHashTable.shrink
  split
  next hfew =>
    obtain ⟨hbuckets, hfew⟩ := hfew
    unfold hashBuckets at hbuckets
    rw [Nat.one_shiftLeft, show initialBuckets = 2 ^ 1 from rfl] at hbuckets
    have hlt := (Nat.pow_lt_pow_iff_right (by decide)).mp hbuckets
    have hhalf : 2 ^ (kHashNumberBits - t.hashShift) = 2 ^ (kHashNumberBits - (t.hashShift + 1)) * 2 := by
      rw [← Nat.pow_succ]
      congr 1
      omega
    unfold kHashNumberBits at hlt
    split
    next t' hrehash => exact hbounds.rehash h hrehash (by omega) (by omega) (by omega)
    next => exact hbounds
  next => exact hbounds

def System.Meets (ops : Ops T K) (s : System T K) (op : Op T K) : Prop :=
  ∀ element alloc, op = .put element alloc → Grows ops s.table element alloc → hashBuckets s.table < 2 ^ 30

theorem InBounds.of_new (hcapacity : t.dataCapacity = capacity initialBuckets) (hshift : t.hashShift = 31)
    (hdata : t.data = []) : InBounds t := by
  refine ⟨?_, by omega, by omega, ?_⟩
  . rw [hcapacity, hshift]
    rfl
  . rw [hdata]
    exact Nat.zero_le _

theorem InBounds.clear (hbounds : InBounds t) (alloc : AllocPolicy) : InBounds (clear alloc t).1 := by
  unfold OrderedHashTable.clear
  split
  . split
    next t' hinit =>
      rw [init_eq hinit]
      exact .of_new rfl rfl rfl
    next => exact hbounds
  . exact hbounds

theorem InBounds.step {s s' : System T K} {op : Op T K} (hbounds : InBounds s.table) (h : s.Exact ops)
    (hmeets : s.Meets ops op) (hstep : s.step ops op = some s') : InBounds s'.table := by
  obtain ⟨entries, hrefines⟩ := h.refines
  have hsame := hbounds
  obtain ⟨hcapacity, hge, hle, hlength⟩ := hsame
  cases op with
  | put element alloc =>
    simp only [System.step] at hstep
    split at hstep
    . cases hstep
    cases hstep
    exact hbounds.put hrefines.wellFormed (hmeets element alloc rfl)
  | remove l alloc =>
    simp only [System.step] at hstep
    split at hstep
    . cases hstep
    next hkey =>
    cases hstep
    unfold OrderedHashTable.remove
    split
    . exact hbounds
    . next e hlookup =>
      have hremoved : InBounds (removeEntry ops s.table e) :=
        ⟨hcapacity, hge, hle, Nat.le_trans (Nat.le_of_eq (length_modify ..)) hlength⟩
      exact hremoved.shrink (hrefines.removeEntry (by simpa using hkey) hlookup).wellFormed alloc
  | clear alloc =>
    cases hstep
    exact hbounds.clear alloc
  | createRange buffer inNursery =>
    simp only [System.step] at hstep
    split at hstep
    . cases hstep
    cases hstep
    cases inNursery <;> exact ⟨hcapacity, hge, hle, hlength⟩
  | copyRange buffer other =>
    simp only [System.step] at hstep
    split at hstep
    . cases hstep
    split at hstep
    . cases hstep
    cases hstep
    exact ⟨hcapacity, hge, hle, hlength⟩
  | destroyRange buffer =>
    cases hstep
    exact ⟨hcapacity, hge, hle, hlength⟩
  | destroyNurseryRanges =>
    cases hstep
    exact ⟨hcapacity, hge, hle, hlength⟩
  | popFront buffer =>
    simp only [System.step] at hstep
    split at hstep
    . cases hstep
    cases hstep
    exact ⟨hcapacity, hge, hle, hlength⟩

theorem System.new_inBounds {s : System T K} (h : System.new alloc = some s) : InBounds s.table := by
  unfold System.new OrderedHashTable.new at h
  obtain ⟨t, hinit, rfl⟩ := Option.map_eq_some_iff.mp h
  rw [init_eq hinit]
  exact .of_new rfl rfl rfl

end Bounds

-- Every range has visited exactly what it should have, in the order of insertion, and has exactly the rest ahead, and
-- the elements lie in the data vector.
structure System.IteratesExactly (ops : Ops T K) (calls : List (Op T K)) (s : System T K) : Prop where
  calls_eq : s.history.map Prod.fst = calls
  inBounds : s.table.data.length ≤ s.table.dataCapacity
  live_eq : s.table.data.filter ops.live = (abstractRun ops s.history).entries.map Prod.snd
  sorted : ((abstractRun ops s.history).entries.map Prod.fst).Pairwise (· < ·)
  ranges : ∀ buffer r, findRange s.table buffer = some r
    → s.visited buffer = ((abstractRun ops s.history).visited buffer).map Prod.snd
      ∧ (((abstractRun ops s.history).visited buffer).map Prod.fst).Pairwise (· < ·)
      ∧ r.drain ops s.table = ((abstractRun ops s.history).ahead buffer).map Prod.snd
      ∧ ∀ x ∈ (abstractRun ops s.history).visited buffer, ∀ y ∈ (abstractRun ops s.history).ahead buffer, x.1 < y.1

/--
After calls that never grow a table of `2 ^ 30` buckets every range has visited exactly what it should have, in the
order of insertion, and has exactly the rest ahead, however the table was grown, shrunk, compacted and cleared.
-/
theorem ranges_iterate_exactly (ops : Ops T K) (alloc : AllocPolicy) (calls : List (Op T K))
    (s₀ s : System T K) (hnew : System.new alloc = some s₀) (hrun : calls.foldlM (System.step ops) s₀ = some s)
    (hmeets : ∀ done op t, done ++ [op] <+: calls → done.foldlM (System.step ops) s₀ = some t → t.Meets ops op)
    : s.IteratesExactly ops calls := by
  have hhistory : s.history.map Prod.fst = calls := by
    refine Run.foldlM_inv (fun calls (s : System T K) => s.history.map Prod.fst = calls) ?_ (System.new_history hnew) hrun
    intro done s op s' hhistory hstep
    rw [System.step_history hstep, hhistory]
  have hboth : s.Exact ops ∧ InBounds s.table := by
    apply Run.foldlM_inv_of_meets ?_ ⟨System.new_exact hnew, System.new_inBounds hnew⟩ hrun hmeets
    intro s op s' (h : s.Exact ops ∧ InBounds s.table) hmeet hstep
    exact ⟨h.1.step hstep, h.2.step h.1 hmeet hstep⟩
  obtain ⟨hexact, hbounds⟩ := hboth
  obtain ⟨entries, hrefines⟩ := hexact.refines
  have hordered := hrefines.ordered
  refine ⟨hhistory, hbounds.length_le, hrefines.live_eq, hordered.entries_sorted, fun buffer r hr => ?_⟩
  have hrel := hrefines.ranges _ (findRange_some hr)
  exact ⟨hexact.visited_eq buffer, hordered.visited_sorted buffer, hrel.drain_eq hrefines.data_eq,
    hordered.visited_lt_ahead buffer⟩

def natOps : Ops (Option Nat) (Option Nat) where
  getKey := id
  isEmpty := Option.isNone
  makeEmpty := fun _ => none
  match_ := fun k l => k == l
  prepareHash := fun k => k.getD 0 % 2 ^ 32
  isEmpty_makeEmpty := fun _ => rfl
  match_empty := by
    intro k l hk hl
    cases k <;> cases l <;> simp at *
  match_symm := by
    intro k l h
    rw [beq_iff_eq] at *
    exact h.symm
  match_trans := by
    intro k l m h h'
    rw [beq_iff_eq] at *
    exact h.trans h'
  prepareHash_eq := by
    intro k l h
    rw [beq_iff_eq] at h
    rw [h]

def granted : AllocPolicy := ⟨true, true⟩

def someCalls : List (Op (Option Nat) (Option Nat)) :=
  [.put (some 1) granted, .put (some 2) granted, .createRange 0 false, .popFront 0, .remove (some 1) granted,
    .put (some 3) granted]

def newSystem : System (Option Nat) (Option Nat) := ⟨⟨fun _ => [], [], 5, 0, 31, [], []⟩, [], fun _ => []⟩

theorem ranges_iterate_exactly_natOps
    : ∃ s, System.new granted = some newSystem ∧ someCalls.foldlM (System.step natOps) newSystem = some s
        ∧ ∃ r, findRange s.table 0 = some r ∧ s.visited 0 = [some 1] ∧ r.drain natOps s.table = [some 2, some 3] := by
  -- The table is never full.
  have hroom : ∀ k < 6, ((someCalls.take k).foldlM (System.step natOps) newSystem).all
      (fun t => t.table.data.length ≠ t.table.dataCapacity) = true := by
    decide
  have hexact := ranges_iterate_exactly natOps granted someCalls newSystem _ rfl rfl (by
    intro done op t hprefix ht _ _ _ hgrows
    have hlength := hprefix.length_le
    rw [length_append] at hlength
    have hdone := hroom done.length hlength
    rw [← prefix_iff_eq_take.mp ((prefix_append done [op]).trans hprefix), ht] at hdone
    exact absurd hgrows.2.1 (of_decide_eq_true hdone))
  obtain ⟨hvisited, _, hdrain, _⟩ := hexact.ranges 0 _ rfl
  refine ⟨_, rfl, rfl, _, rfl, ?_, ?_⟩
  . rw [hvisited]
    decide
  . rw [hdrain]
    decide

def puts (n : Nat) : List (Op (Option Nat) (Option Nat)) := (range n).map fun i => .put (some i) granted

theorem rehash_granted (newHashShift : Nat) (t : OrderedHashTable (Option Nat)) (hcapacity : t.dataCapacity < 2 ^ 32)
    : ∃ t', rehash natOps granted newHashShift t = some t' ∧ t'.dataCapacity < 2 ^ 32 := by
  unfold rehash
  split
  . exact ⟨_, rfl, hcapacity⟩
  . exact ⟨_, rfl, Nat.mod_lt _ (by decide)⟩

theorem reserve_granted (t : OrderedHashTable (Option Nat)) (hcapacity : t.dataCapacity < 2 ^ 32)
    : ∃ t', reserve natOps granted t = some t' ∧ t'.dataCapacity < 2 ^ 32 := by
  unfold reserve
  by_cases hfull : t.data.length = t.dataCapacity
  . rw [if_pos hfull]
    exact rehash_granted _ t hcapacity
  . rw [if_neg hfull]
    exact ⟨t, rfl, hcapacity⟩

theorem put_granted (t : OrderedHashTable (Option Nat)) (element : Option Nat) (hcapacity : t.dataCapacity < 2 ^ 32)
    : (put natOps granted t element).2 = true ∧ (put natOps granted t element).1.dataCapacity < 2 ^ 32 := by
  unfold put
  split
  . exact ⟨rfl, hcapacity⟩
  . obtain ⟨t', hreserve, hcapacity'⟩ := reserve_granted t hcapacity
    rw [hreserve]
    exact ⟨rfl, hcapacity'⟩

theorem puts_run (n : Nat)
    : ∃ s₀ s, System.new granted = some s₀ ∧ (puts n).foldlM (System.step natOps) s₀ = some s
      ∧ s.history = (puts n).map (·, true) ∧ s.table.dataCapacity < 2 ^ 32 := by
  induction n with
  | zero => exact ⟨_, _, rfl, rfl, rfl, by decide⟩
  | succ n ih =>
    obtain ⟨s₀, s, hnew, hrun, hhistory, hcapacity⟩ := ih
    obtain ⟨hok, hcapacity'⟩ := put_granted s.table (some n) hcapacity
    have hputs : puts (n + 1) = puts n ++ [.put (some n) granted] := by
      unfold puts
      rw [range_succ, map_append]
      rfl
    refine ⟨s₀, ⟨(put natOps granted s.table (some n)).1, s.history ++ [(.put (some n) granted, true)], s.visited⟩, hnew,
      ?_, ?_, hcapacity'⟩
    . rw [hputs, Run.foldlM_concat hrun, ← hok]
      rfl
    . rw [hputs, hhistory, map_append]
      rfl

theorem entries_puts (n : Nat)
    : (abstractRun natOps ((puts n).map (·, true))).entries.map Prod.snd = (range n).map some := by
  induction n with
  | zero => rfl
  | succ n ih =>
    have hputs : puts (n + 1) = puts n ++ [.put (some n) granted] := by
      unfold puts
      rw [range_succ, map_append]
      rfl
    have hnew : (abstractRun natOps ((puts n).map (·, true))).entries.any (fun x => natOps.match_ x.2 (some n)) = false := by
      rw [any_eq_false]
      intro x hx
      have hmem : x.2 ∈ (range n).map some := ih ▸ mem_map_of_mem hx
      obtain ⟨i, hi, heq⟩ := mem_map.mp hmem
      rw [← heq]
      have hne : i ≠ n := Nat.ne_of_lt (mem_range.mp hi)
      exact fun hmatch => hne (Option.some_inj.mp (beq_iff_eq.mp hmatch))
    rw [hputs, map_append, map_singleton, abstractRun_append]
    change ((abstractRun natOps ((puts n).map (·, true))).put (fun d => natOps.match_ d (some n)) (some n)).entries.map
      Prod.snd = _
    unfold InsertionOrder.put
    rw [if_neg (by rw [hnew]; decide), map_append, ih, range_succ, map_append]
    rfl

theorem not_ranges_iterate_exactly
    : ¬ ∀ (calls : List (Op (Option Nat) (Option Nat))) (s₀ s : System (Option Nat) (Option Nat)),
        System.new granted = some s₀ → calls.foldlM (System.step natOps) s₀ = some s → s.IteratesExactly natOps calls := by
  intro hclaim
  obtain ⟨s₀, s, hnew, hrun, hhistory, hcapacity⟩ := puts_run (2 ^ 32)
  have hexact := hclaim _ s₀ s hnew hrun
  have hlive := congrArg List.length hexact.live_eq
  rw [hhistory, entries_puts, length_map, length_range] at hlive
  have hle := length_filter_le natOps.live s.table.data
  have hbounds := hexact.inBounds
  omega

end SpiderMonkey.OrderedHashTable
