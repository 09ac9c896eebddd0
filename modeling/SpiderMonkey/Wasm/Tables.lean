import SpiderMonkey.Lib.Run
import SpiderMonkey.Wasm.Impl.Table
import SpiderMonkey.Wasm.Memory

/-!
This module contains that the instructions on ranges of tables act on a snapshot, and when copying does not: what each
operation does with the elements of a single table, and the theorem about runs.
-/

open List Option

namespace SpiderMonkey.Wasm

open Overwrite

variable {Obj Code Tls : Type}

inductive Entry (Obj Code Tls : Type) where
  | func (elem : FunctionTableElem Code Tls)
  | ref (ref : Option Obj)
deriving DecidableEq

namespace Table

variable {fns : Functions Obj Code Tls} {table srcTable : Table Obj Code Tls} {index n dstIndex srcIndex : Nat}

def entries (table : Table Obj Code Tls) : List (Entry Obj Code Tls) :=
  match table.elements with
  | .functions functions => functions.map .func
  | .objects objects => objects.map .ref

def convert (fns : Functions Obj Code Tls) (toFunction : Bool) : Entry Obj Code Tls → Entry Obj Code Tls
  | .func elem =>
    if toFunction then .func elem else .ref (elem.map fun entry => fns.getExportedFunction entry.1 entry.2)
  | .ref ref => .ref ref

structure Becomes (table : Table Obj Code Tls) (entries : List (Entry Obj Code Tls)) (table' : Table Obj Code Tls)
    : Prop where
  entries : table'.entries = entries
  isFunction : table'.isFunction = table.isFunction
  maximum : table'.maximum = table.maximum

theorem length_entries (table : Table Obj Code Tls) : table.entries.length = table.length := by
  unfold entries length
  cases table.elements <;> exact length_map _

theorem store_eq {α : Type} {l : List α} (h : index < l.length) (a : α) : store l index a = some (l.set index a) :=
  if_pos h

theorem setElem_becomes (table : Table Obj Code Tls) (hkind : table.isFunction = true)
    (hindex : index < table.length) (elem : FunctionTableElem Code Tls) : ∃ table', table.setElem index elem = some table'
      ∧ table.Becomes (table.entries.set index (.func elem)) table' := by
  obtain ⟨elements, maximum⟩ := table
  cases elements with
  | objects => cases hkind
  | functions functions =>
    unfold setElem
    dsimp only
    rw [store_eq hindex]
    exact ⟨_, rfl, map_set, rfl, rfl⟩

theorem setAnyRef_becomes (table : Table Obj Code Tls) (hkind : table.isFunction = false)
    (hindex : index < table.length) (ref : Option Obj) : ∃ table', table.setAnyRef index ref = some table'
      ∧ table.Becomes (table.entries.set index (.ref ref)) table' := by
  obtain ⟨elements, maximum⟩ := table
  cases elements with
  | functions => cases hkind
  | objects objects =>
    unfold setAnyRef
    dsimp only
    rw [store_eq hindex]
    exact ⟨_, rfl, map_set, rfl, rfl⟩

theorem fillAnyRef_one (ref : Option Obj) : table.fillAnyRef index 1 ref = table.setAnyRef index ref := by
  unfold fillAnyRef
  rw [range_one, foldlM_cons]
  exact bind_pure _

def null (isFunction : Bool) : Entry Obj Code Tls := if isFunction then .func none else .ref none

theorem setNull_becomes (hindex : index < table.length)
    : ∃ table', table.setNull index = some table'
      ∧ table.Becomes (table.entries.set index (null table.isFunction)) table' := by
  cases hkind : table.isFunction with
  | true =>
    have hset := setElem_becomes table hkind hindex none
    obtain ⟨elements, maximum⟩ := table
    cases elements with
    | objects => cases hkind
    | functions functions => exact hset
  | false =>
    have hset := setAnyRef_becomes table hkind hindex none
    obtain ⟨elements, maximum⟩ := table
    cases elements with
    | functions => cases hkind
    | objects objects =>
      unfold setNull
      dsimp only
      rw [fillAnyRef_one]
      exact hset

def needsObject (toFunction : Bool) : Entry Obj Code Tls → Bool
  | .func elem => !toFunction && elem.isSome
  | .ref _ => false

theorem copy_becomes (fns : Functions Obj Code Tls) (succeeds : Bool)
    (hkind : table.isFunction = true → srcTable.isFunction = true) (hdst : dstIndex < table.length) {entry : Entry Obj Code Tls} (hsrc : srcTable.entries[srcIndex]? = some entry)
    : if needsObject table.isFunction entry = true ∧ succeeds = false then
        copy fns succeeds srcTable dstIndex srcIndex table = some (.error .OutOfMemory)
      else ∃ table', copy fns succeeds srcTable dstIndex srcIndex table = some (.ok table')
        ∧ table.Becomes (table.entries.set dstIndex (convert fns table.isFunction entry)) table' := by
  obtain ⟨elements, maximum⟩ := table
  obtain ⟨srcElements, srcMaximum⟩ := srcTable
  cases elements with
  | functions functions =>
    cases srcElements with
    | objects srcObjects => cases hkind rfl
    | functions srcFunctions =>
      obtain ⟨elem, helem, rfl⟩ := map_eq_some_iff.mp (List.getElem?_map.symm.trans hsrc)
      obtain ⟨table', hset, hbecomes⟩ := setElem_becomes ⟨.functions functions, maximum⟩ rfl hdst elem
      rw [if_neg (fun h => absurd h.1 (by simp [needsObject, isFunction]))]
      refine ⟨table', ?_, hbecomes⟩
      unfold copy
      dsimp only
      rw [helem, some_bind, hset]
      rfl
  | objects objects =>
    cases srcElements with
    | objects srcObjects =>
      obtain ⟨ref, href, rfl⟩ := map_eq_some_iff.mp (List.getElem?_map.symm.trans hsrc)
      obtain ⟨table', hset, hbecomes⟩ := setAnyRef_becomes ⟨.objects objects, maximum⟩ rfl hdst ref
      rw [if_neg (fun h => absurd h.1 (by simp [needsObject]))]
      refine ⟨table', ?_, hbecomes⟩
      unfold copy
      dsimp only
      rw [href, some_bind, fillAnyRef_one, hset]
      rfl
    | functions srcFunctions =>
      obtain ⟨elem, helem, rfl⟩ := map_eq_some_iff.mp (List.getElem?_map.symm.trans hsrc)
      unfold copy
      dsimp only
      rw [helem, some_bind]
      cases elem with
      | none =>
        obtain ⟨table', hset, hbecomes⟩ := setAnyRef_becomes ⟨.objects objects, maximum⟩ rfl hdst none
        rw [if_neg (fun h => absurd h.1 (by simp [needsObject]))]
        refine ⟨table', ?_, hbecomes⟩
        unfold getFuncRef
        dsimp only
        rw [fillAnyRef_one, hset]
        rfl
      | some entry =>
        obtain ⟨code, tls⟩ := entry
        obtain ⟨table', hset, hbecomes⟩ := setAnyRef_becomes ⟨.objects objects, maximum⟩ rfl hdst
          (some (fns.getExportedFunction code tls))
        unfold getFuncRef
        cases succeeds with
        | false => rw [if_pos ⟨rfl, rfl⟩]; rfl
        | true =>
          rw [if_neg (fun h => absurd h.2 (by decide))]
          refine ⟨table', ?_, hbecomes⟩
          dsimp only
          rw [if_pos rfl]
          dsimp only
          rw [fillAnyRef_one, hset]
          rfl

theorem Becomes.trans {entries entries' : List (Entry Obj Code Tls)}
    (h : table.Becomes entries table') (h' : table'.Becomes entries' table'') : table.Becomes entries' table'' where
  entries := h'.entries
  isFunction := h'.isFunction.trans h.isFunction
  maximum := h'.maximum.trans h.maximum

theorem Becomes.refl (table : Table Obj Code Tls) : table.Becomes table.entries table := ⟨rfl, rfl, rfl⟩

theorem convert_of_mem {entry : Entry Obj Code Tls} (h : entry ∈ table.entries)
    : convert fns table.isFunction entry = entry := by
  obtain ⟨elements, maximum⟩ := table
  cases elements with
  | functions functions =>
    obtain ⟨elem, _, rfl⟩ := mem_map.mp h
    rfl
  | objects objects =>
    obtain ⟨ref, _, rfl⟩ := mem_map.mp h
    rfl

theorem foldlM_becomes {step : Table Obj Code Tls → Nat → Option (Table Obj Code Tls)} {entry : Entry Obj Code Tls}
    (hstep : ∀ table', table'.isFunction = table.isFunction → ∀ i, index + i < table'.length →
      ∃ table'', step table' i = some table'' ∧ table'.Becomes (table'.entries.set (index + i) entry) table'')
    (h : index + n ≤ table.length)
    : ∃ table', (List.range n).foldlM step table = some table'
      ∧ table.Becomes (overwrite table.entries index (List.replicate n entry)) table' := by
  induction n with
  | zero =>
    refine ⟨table, rfl, ?_⟩
    rw [replicate_zero, overwrite_nil]
    exact .refl table
  | succ n ih =>
    obtain ⟨table', hrun, hbecomes⟩ := ih (by omega)
    have hlength : table'.length = table.length := by
      rw [← length_entries, hbecomes.entries, length_overwrite, length_entries]
      rw [length_replicate, length_entries]
      omega
    obtain ⟨table'', hset, hbecomes'⟩ := hstep table' hbecomes.isFunction n (by omega)
    refine ⟨table'', ?_, ?_⟩
    . rw [range_succ, foldlM_append, hrun, some_bind, foldlM_cons, hset]
      rfl
    have habove := set_overwrite_above (a := entry)
      (show index + (List.replicate n entry).length < table.entries.length by
        rw [length_replicate, length_entries]; omega)
    rw [length_replicate] at habove
    rw [replicate_succ', ← habove, ← hbecomes.entries]
    exact hbecomes.trans hbecomes'

theorem fillAnyRef_becomes (hkind : table.isFunction = false) (h : index + n ≤ table.length) (ref : Option Obj)
    : ∃ table', table.fillAnyRef index n ref = some table'
      ∧ table.Becomes (overwrite table.entries index (List.replicate n (.ref ref))) table' :=
  foldlM_becomes (fun table' hkind' _ hi => setAnyRef_becomes table' (hkind'.trans hkind) hi ref) h

def entry (fns : Functions Obj Code Tls) (isFunction : Bool) (value : Option Obj) : Entry Obj Code Tls :=
  if isFunction then .func (value.map fns.funcTableEntry) else .ref value

theorem fillFuncRef_becomes (hkind : table.isFunction = true) (h : index + n ≤ table.length) (ref : Option Obj)
    : ∃ table', table.fillFuncRef fns index n ref = some table'
      ∧ table.Becomes (overwrite table.entries index (List.replicate n (entry fns true ref))) table' := by
  cases ref with
  | none =>
    apply foldlM_becomes _ h
    intro table' hkind' i hi
    have hnull := setNull_becomes hi
    rw [hkind', hkind] at hnull
    exact hnull
  | some fun' =>
    exact foldlM_becomes (fun table' hkind' _ hi => setElem_becomes table' (hkind'.trans hkind) hi _) h

end Table

namespace Instance

open Table

variable {fns : Functions Obj Code Tls} {succeeds : Nat → Bool} {heap : Heap Obj Code Tls} {dstId srcId dst src : Nat}

-- Copying the element at the next offset keeps an invariant of the offsets that are left and the destination.
def CopyStep (fns : Functions Obj Code Tls) (heap : Heap Obj Code Tls) (dstId srcId dst src : Nat)
    (inv : List Nat → Table Obj Code Tls → Prop) : Prop :=
  ∀ i rest table, inv (i :: rest) table → dst + i < table.length ∧ ∃ srcTable entry,
    (heap.set dstId table)[srcId]? = some srcTable ∧ (table.isFunction = true → srcTable.isFunction = true)
      ∧ srcTable.entries[src + i]? = some entry
      ∧ ∀ table', table.Becomes (table.entries.set (dst + i) (convert fns table.isFunction entry)) table'
        → inv rest table'

theorem copyElems_eq {inv : List Nat → Table Obj Code Tls → Prop} (succeeds : Nat → Bool)
    (hstep : CopyStep fns heap dstId srcId dst src inv) (hid : dstId < heap.length) {offsets : List Nat}
    {table : Table Obj Code Tls} (h : inv offsets table)
    : (∃ table', copyElems fns succeeds dstId srcId dst src offsets (heap.set dstId table)
          = some (heap.set dstId table', .ok ()) ∧ inv [] table')
      ∨ ∃ heap', copyElems fns succeeds dstId srcId dst src offsets (heap.set dstId table)
          = some (heap', .error .OutOfMemory) ∧ ∃ i ∈ offsets, succeeds i = false := by
  induction offsets generalizing table with
  | nil => exact .inl ⟨table, rfl, h⟩
  | cons i rest ih =>
    obtain ⟨hdst, srcTable, entry, hsrc, hkind, hentry, hnext⟩ := hstep i rest table h
    have hget : (heap.set dstId table)[dstId]? = some table := List.getElem?_set_self hid
    have hcopy := copy_becomes fns (succeeds i) hkind hdst hentry
    unfold copyElems
    rw [hget, some_bind, hsrc, some_bind]
    split at hcopy
    next hfails =>
      rw [hcopy]
      exact .inr ⟨_, rfl, i, mem_cons_self, hfails.2⟩
    next =>
      obtain ⟨table', htable', hbecomes⟩ := hcopy
      rw [htable', some_bind]
      dsimp only
      rw [set_set]
      rcases ih (hnext table' hbecomes) with hok | ⟨heap', hrun, j, hj, hfails⟩
      . exact .inl hok
      . exact .inr ⟨heap', hrun, j, mem_cons_of_mem i hj, hfails⟩

variable {table₀ : Table Obj Code Tls} {len : Nat} {values : List (Entry Obj Code Tls)}

theorem length_of_becomes {table : Table Obj Code Tls}
    (h : table₀.Becomes (overwrite table₀.entries n xs) table) (hxs : n + xs.length ≤ table₀.length)
    : table.length = table₀.length := by
  rw [← length_entries table, h.entries, length_overwrite (by rw [length_entries]; exact hxs), length_entries]

def Reads (fns : Functions Obj Code Tls) (heap : Heap Obj Code Tls) (dstId srcId src : Nat)
    (table₀ table : Table Obj Code Tls) (values : List (Entry Obj Code Tls)) (k : Nat) : Prop :=
  ∃ srcTable entry, (heap.set dstId table)[srcId]? = some srcTable
    ∧ (table₀.isFunction = true → srcTable.isFunction = true)
    ∧ srcTable.entries[src + k]? = some entry ∧ values[k]? = some (convert fns table₀.isFunction entry)

theorem copyElems_forward (succeeds : Nat → Bool) (hid : heap[dstId]? = some table₀)
    (hbound : dst + len ≤ table₀.length) (hlength : values.length = len)
    (hread : ∀ k < len, ∀ table, table₀.Becomes (overwrite table₀.entries dst (values.take k)) table →
      Reads fns heap dstId srcId src table₀ table values k)
    : (∃ table', copyElems fns succeeds dstId srcId dst src (List.range len) heap
          = some (heap.set dstId table', .ok ()) ∧ table₀.Becomes (overwrite table₀.entries dst values) table')
      ∨ ∃ heap', copyElems fns succeeds dstId srcId dst src (List.range len) heap
          = some (heap', .error .OutOfMemory) ∧ ∃ i ∈ List.range len, succeeds i = false := by
  obtain ⟨hlt, hget⟩ := List.getElem?_eq_some_iff.mp hid
  have hsame : heap.set dstId table₀ = heap := by
    rw [← hget]
    exact set_getElem_self hlt
  have hstep : CopyStep fns heap dstId srcId dst src fun rest table => ∃ k ≤ len, rest = List.range' k (len - k)
      ∧ table₀.Becomes (overwrite table₀.entries dst (values.take k)) table := by
    rintro i rest table ⟨k, hk, hrest, hbecomes⟩
    have hklt : k < len := by
      by_contra hge
      rw [show len - k = 0 by omega] at hrest
      cases hrest
    rw [show len - k = (len - (k + 1)) + 1 by omega, List.range'_succ] at hrest
    cases hrest
    have htake : (values.take i).length = i := by
      rw [length_take]
      omega
    have hlen := length_of_becomes hbecomes (by omega)
    obtain ⟨srcTable, entry, hsrc, hkind, hentry, hvalue⟩ := hread i hklt table hbecomes
    refine ⟨by omega, srcTable, entry, hsrc, fun h => hkind (hbecomes.isFunction ▸ h), hentry, fun table' h' => ?_⟩
    refine ⟨i + 1, hklt, rfl, ?_⟩
    have hset := set_overwrite_above (l := table₀.entries) (i := dst) (a := convert fns table₀.isFunction entry)
      (show dst + (values.take i).length < _ by rw [length_entries]; omega)
    rw [htake] at hset
    have htrans := hbecomes.trans h'
    rw [hbecomes.entries, hbecomes.isFunction, hset] at htrans
    rw [take_add_one, hvalue]
    exact htrans
  have hstart : ∃ k ≤ len, List.range len = List.range' k (len - k)
      ∧ table₀.Becomes (overwrite table₀.entries dst (values.take k)) table₀ := by
    refine ⟨0, Nat.zero_le _, range_eq_range', ?_⟩
    rw [take_zero, overwrite_nil]
    exact .refl table₀
  rcases copyElems_eq succeeds hstep hlt hstart with hok | hfails
  . rw [hsame] at hok
    obtain ⟨table', hrun, k, hk, hrest, hbecomes⟩ := hok
    have hend : k = len := by
      have := congrArg List.length hrest
      rw [length_nil, length_range'] at this
      omega
    subst hend
    rw [take_of_length_le (by omega)] at hbecomes
    exact .inl ⟨table', hrun, hbecomes⟩
  . rw [hsame] at hfails
    exact .inr hfails

theorem copyElems_backward (succeeds : Nat → Bool) (hid : heap[dstId]? = some table₀)
    (hbound : dst + len ≤ table₀.length) (hlength : values.length = len)
    (hread : ∀ k < len, ∀ table, table₀.Becomes (overwrite table₀.entries (dst + k + 1) (values.drop (k + 1))) table →
      Reads fns heap dstId srcId src table₀ table values k)
    : (∃ table', copyElems fns succeeds dstId srcId dst src (List.range len).reverse heap
          = some (heap.set dstId table', .ok ()) ∧ table₀.Becomes (overwrite table₀.entries dst values) table')
      ∨ ∃ heap', copyElems fns succeeds dstId srcId dst src (List.range len).reverse heap
          = some (heap', .error .OutOfMemory) ∧ ∃ i ∈ List.range len, succeeds i = false := by
  obtain ⟨hlt, hget⟩ := List.getElem?_eq_some_iff.mp hid
  have hsame : heap.set dstId table₀ = heap := by
    rw [← hget]
    exact set_getElem_self hlt
  have hstep : CopyStep fns heap dstId srcId dst src fun rest table => ∃ k ≤ len, rest = (List.range k).reverse
      ∧ table₀.Becomes (overwrite table₀.entries (dst + k) (values.drop k)) table := by
    rintro i rest table ⟨k, hk, hrest, hbecomes⟩
    cases k with
    | zero => cases hrest
    | succ k =>
      rw [range_succ, reverse_append] at hrest
      cases hrest
      have hdrop : (values.drop (i + 1)).length = len - (i + 1) := by
        rw [length_drop, hlength]
      have hlen := length_of_becomes hbecomes (by omega)
      obtain ⟨srcTable, entry, hsrc, hkind, hentry, hvalue⟩ := hread i hk table hbecomes
      refine ⟨by omega, srcTable, entry, hsrc, fun h => hkind (hbecomes.isFunction ▸ h), hentry, fun table' h' => ?_⟩
      refine ⟨i, by omega, rfl, ?_⟩
      obtain ⟨hkv, hvalue⟩ := List.getElem?_eq_some_iff.mp hvalue
      have hset := set_overwrite_below (l := table₀.entries) (i := dst + i) (a := convert fns table₀.isFunction entry)
        (show dst + i + 1 + (values.drop (i + 1)).length ≤ _ by rw [length_entries]; omega)
      have htrans := hbecomes.trans h'
      rw [hbecomes.entries, hbecomes.isFunction] at htrans
      rw [Nat.add_assoc] at hset
      rw [hset] at htrans
      rw [drop_eq_getElem_cons hkv, hvalue]
      exact htrans
  have hstart : ∃ k ≤ len, (List.range len).reverse = (List.range k).reverse
      ∧ table₀.Becomes (overwrite table₀.entries (dst + k) (values.drop k)) table₀ := by
    refine ⟨len, Nat.le_refl _, rfl, ?_⟩
    rw [drop_of_length_le (by omega), overwrite_nil]
    exact .refl table₀
  rcases copyElems_eq succeeds hstep hlt hstart with hok | ⟨heap', hrun, i, hi, hfails⟩
  . rw [hsame] at hok
    obtain ⟨table', hrun, k, hk, hrest, hbecomes⟩ := hok
    have hend : k = 0 := by
      have := congrArg List.length hrest
      rw [length_nil, length_reverse, length_range] at this
      omega
    subst hend
    exact .inl ⟨table', hrun, hbecomes⟩
  . rw [hsame] at hrun
    exact .inr ⟨heap', hrun, i, mem_reverse.mp hi, hfails⟩

theorem copy_self_ne_error {table : Table Obj Code Tls}
    : Table.copy fns b table dstIndex srcIndex table ≠ some (.error trap) := by
  obtain ⟨elements, maximum⟩ := table
  unfold Table.copy
  cases elements with
  | functions functions =>
    intro h
    obtain ⟨elem, _, h⟩ := bind_eq_some_iff.mp h
    obtain ⟨_, _, h⟩ := map_eq_some_iff.mp h
    cases h
  | objects objects =>
    intro h
    obtain ⟨ref, _, h⟩ := bind_eq_some_iff.mp h
    obtain ⟨_, _, h⟩ := map_eq_some_iff.mp h
    cases h

theorem copyElems_self_ne_error {id : Nat} {offsets : List Nat}
    : copyElems fns succeeds id id dst src offsets heap ≠ some (heap', .error trap) := by
  induction offsets generalizing heap with
  | nil => nofun
  | cons i offsets ih =>
    unfold copyElems
    intro h
    obtain ⟨table, htable, h⟩ := bind_eq_some_iff.mp h
    rw [htable, some_bind] at h
    obtain ⟨result, hresult, h⟩ := bind_eq_some_iff.mp h
    cases result with
    | error trap' => exact copy_self_ne_error hresult
    | ok table' => exact ih h

def segEntry (fns : Functions Obj Code Tls) (instance' : Instance Code Tls) (isFunction : Bool) (funcIndex : Nat)
    : Entry Obj Code Tls :=
  if funcIndex = NullFuncIndex then null isFunction
  else if !isFunction then .ref (some (fns.refFunc funcIndex))
  else
    match instance'.funcImports[funcIndex]? with
    | some (some entry) => .func (some entry)
    | _ => .func (some (instance'.funcTableEntry funcIndex, instance'.tlsData))

theorem setElem_becomes_or (fns : Functions Obj Code Tls) (instance' : Instance Code Tls) (succeeds : Bool)
    {table : Table Obj Code Tls} {index : Nat} (hindex : index < table.length) (funcIndex : Nat)
    : (∃ table', setElem fns instance' table succeeds index funcIndex = some (.ok table')
        ∧ table.Becomes (table.entries.set index (segEntry fns instance' table.isFunction funcIndex)) table')
      ∨ setElem fns instance' table succeeds index funcIndex = some (.error .OutOfMemory) ∧ succeeds = false := by
  unfold setElem segEntry
  by_cases hnull : funcIndex = NullFuncIndex
  . obtain ⟨table', hset, hbecomes⟩ := setNull_becomes hindex
    rw [if_pos hnull, if_pos hnull, hset]
    exact .inl ⟨table', rfl, hbecomes⟩
  rw [if_neg hnull, if_neg hnull]
  cases hkind : table.isFunction with
  | false =>
    cases succeeds with
    | false => exact .inr ⟨rfl, rfl⟩
    | true =>
      obtain ⟨table', hset, hbecomes⟩ := setAnyRef_becomes table hkind hindex (some (fns.refFunc funcIndex))
      rw [if_pos Bool.not_false, if_pos Bool.not_false, if_pos rfl, fillAnyRef_one, hset]
      exact .inl ⟨table', rfl, hbecomes⟩
  | true =>
    left
    rw [if_neg (by decide), if_neg (by decide)]
    have hset (code : Code) (tls : Tls) : ∃ table',
        (table.setFuncRef index code tls).map (Except.ok : _ → Except Trap _) = some (.ok table')
        ∧ table.Becomes (table.entries.set index (.func (some (code, tls)))) table' := by
      obtain ⟨table', hset, hbecomes⟩ := setElem_becomes table hkind hindex (some (code, tls))
      refine ⟨table', ?_, hbecomes⟩
      unfold setFuncRef
      rw [hset]
      rfl
    rcases instance'.funcImports[funcIndex]? with _ | _ | ⟨code, tls⟩
    . exact hset _ _
    . exact hset _ _
    . exact hset code tls

theorem initElems_becomes (fns : Functions Obj Code Tls) (succeeds : Nat → Bool) (instance' : Instance Code Tls)
    (seg : ElemSegment) (hlen : k + m = len)
    (hbound : dst + len ≤ table₀.length) (hseg : src + len ≤ seg.elemFuncIndices.length)
    (hvalues : values = (slice seg.elemFuncIndices src len).map (segEntry fns instance' table₀.isFunction))
    {table : Table Obj Code Tls} (hbecomes : table₀.Becomes (overwrite table₀.entries dst (values.take k)) table)
    : ∃ table' result, initElems fns succeeds instance' seg dst src (List.range' k m) table = some (table', result)
      ∧ (result = .ok () ∧ table₀.Becomes (overwrite table₀.entries dst values) table'
        ∨ result = .error .OutOfMemory ∧ ∃ i < len, succeeds i = false) := by
  have hlength : values.length = len := by rw [hvalues, length_map, length_slice hseg]
  induction m generalizing k table with
  | zero =>
    rw [take_of_length_le (by omega)] at hbecomes
    exact ⟨table, .ok (), rfl, .inl ⟨rfl, hbecomes⟩⟩
  | succ m ih =>
    have htake : (values.take k).length = k := by
      rw [length_take]
      omega
    have hlen' := length_of_becomes hbecomes (by omega)
    obtain ⟨funcIndex, hindex⟩ : ∃ funcIndex, seg.elemFuncIndices[src + k]? = some funcIndex :=
      ⟨_, List.getElem?_eq_getElem (by omega)⟩
    rw [List.range'_succ]
    unfold initElems
    rw [hindex, some_bind]
    rcases setElem_becomes_or fns instance' (succeeds k) (show dst + k < table.length by omega)
      funcIndex with ⟨table', hset, hnext⟩ | ⟨hset, hfails⟩
    . rw [hset, some_bind]
      apply ih (by omega)
      have hvalue : values[k]? = some (segEntry fns instance' table₀.isFunction funcIndex) := by
        rw [hvalues, List.getElem?_map, getElem?_slice, if_pos (by omega), hindex]
        rfl
      have habove := set_overwrite_above (a := segEntry fns instance' table₀.isFunction funcIndex)
        (show dst + (values.take k).length < table₀.entries.length by rw [htake, length_entries]; omega)
      rw [htake] at habove
      have htrans := hbecomes.trans hnext
      rw [hbecomes.entries, hbecomes.isFunction, habove] at htrans
      rw [take_add_one, hvalue]
      exact htrans
    . rw [hset, some_bind]
      exact ⟨table, .error .OutOfMemory, rfl, .inr ⟨rfl, k, by omega, hfails⟩⟩

end Instance

open Table

namespace Instance

variable {fns : Functions Obj Code Tls} {succeeds : Nat → Bool} {instance' : Instance Code Tls}
  {heap : Heap Obj Code Tls} {dstId srcId id : Nat} {dstTable srcTable table : Table Obj Code Tls}

def WellFormed (heap : Heap Obj Code Tls) : Prop := ∀ table ∈ heap, table.length < 2 ^ 32

theorem WellFormed.outOfBounds_iff (h : WellFormed heap) (hid : heap[id]? = some table) (offset len : UInt32)
    : offset.toUInt64 + len.toUInt64 > (tableLength table).toUInt64 ↔ table.length < offset.toNat + len.toNat := by
  unfold tableLength
  rw [toUInt64_add_gt_iff, UInt32.toNat_ofNat_of_lt' (h table (mem_of_getElem? hid))]

theorem exists_entry {i : Nat} (h : i < table.length) : ∃ entry, table.entries[i]? = some entry := by
  rw [← length_entries] at h
  exact ⟨_, List.getElem?_eq_getElem h⟩

def Snapshot (fns : Functions Obj Code Tls) (succeeds : Nat → Bool) (heap : Heap Obj Code Tls) (dstId : Nat)
    (dstTable srcTable : Table Obj Code Tls) (dst src len : Nat) (result : Option (TableResult Obj Code Tls)) : Prop :=
  (∃ table', result = some (heap.set dstId table', .ok ()) ∧ dstTable.Becomes (overwrite dstTable.entries dst
      ((slice srcTable.entries src len).map (convert fns dstTable.isFunction))) table')
  ∨ ∃ heap', result = some (heap', .error .OutOfMemory) ∧ ∃ i ∈ List.range len, succeeds i = false

theorem map_convert_slice (fns : Functions Obj Code Tls) (dstTable : Table Obj Code Tls) (src len : Nat)
    : (slice dstTable.entries src len).map (convert fns dstTable.isFunction) = slice dstTable.entries src len := by
  conv_rhs => rw [← map_id (slice dstTable.entries src len)]
  apply map_congr_left
  intro entry hentry
  exact convert_of_mem (mem_of_mem_drop (mem_of_mem_take hentry))

section Copy

variable {dst src len : Nat} (hdst : heap[dstId]? = some dstTable) (hdstLen : dst + len ≤ dstTable.length)
include hdst hdstLen

theorem copyElems_of_ne (hne : srcId ≠ dstId) (hsrc : heap[srcId]? = some srcTable)
    (hsrcLen : src + len ≤ srcTable.length) (hkind : dstTable.isFunction = true → srcTable.isFunction = true)
    : Snapshot fns succeeds heap dstId dstTable srcTable dst src len
        (copyElems fns succeeds dstId srcId dst src (List.range len) heap) := by
  have hlength : (slice srcTable.entries src len).length = len := length_slice (by rw [length_entries]; exact hsrcLen)
  apply copyElems_forward succeeds hdst hdstLen (by rw [length_map, hlength])
  intro k hk table _
  obtain ⟨entry, hentry⟩ := exists_entry (show src + k < srcTable.length by omega)
  refine ⟨srcTable, entry, ?_, hkind, hentry, ?_⟩
  . rw [List.getElem?_set_ne hne.symm]
    exact hsrc
  . rw [List.getElem?_map, getElem?_slice, if_pos hk, hentry]
    rfl

-- What copying upwards within a table reads for an offset: the elements below the destination over and over when the
-- destination is above the source.
def upwards (dst src k : Nat) : Nat := if src < dst then k % (dst - src) else k

theorem copyElems_up_self (fns : Functions Obj Code Tls) (succeeds : Nat → Bool)
    {values : List (Entry Obj Code Tls)} (hlength : values.length = len)
    (hvalues : ∀ k < len, values[k]? = dstTable.entries[src + upwards dst src k]?)
    : ∃ table', copyElems fns succeeds dstId dstId dst src (List.range len) heap = some (heap.set dstId table', .ok ())
        ∧ dstTable.Becomes (overwrite dstTable.entries dst values) table' := by
  have hid := (List.getElem?_eq_some_iff.mp hdst).1
  have hread : ∀ k < len, ∀ table, dstTable.Becomes (overwrite dstTable.entries dst (values.take k)) table →
      Reads fns heap dstId dstId src dstTable table values k := by
    intro k hk table hbecomes
    have htake : (values.take k).length = k := by
      rw [length_take]
      omega
    have hread : table.entries[src + k]? = dstTable.entries[src + upwards dst src k]? := by
      rw [hbecomes.entries, getElem?_overwrite (by rw [htake, length_entries]; omega), htake]
      split
      next hin =>
        rw [List.getElem?_take, if_pos (by omega), hvalues _ (by omega)]
        have hmod := Nat.mod_eq_sub_mod (show dst - src ≤ k by omega)
        unfold upwards
        rw [if_pos (by omega), if_pos (by omega), show src + k - dst = k - (dst - src) by omega, hmod]
      next hout =>
        unfold upwards
        split
        next hlt => rw [Nat.mod_eq_of_lt (by omega)]
        next => rfl
    obtain ⟨entry, hentry⟩ : ∃ entry, values[k]? = some entry := ⟨_, List.getElem?_eq_getElem (by omega)⟩
    have htable : table.entries[src + k]? = some entry := by
      rw [hread, ← hvalues k hk, hentry]
    refine ⟨table, entry, List.getElem?_set_self hid, fun h => hbecomes.isFunction.trans h, htable, ?_⟩
    rw [← hbecomes.isFunction, convert_of_mem (mem_of_getElem? htable)]
    exact hentry
  rcases copyElems_forward succeeds hdst hdstLen hlength hread with hok | ⟨_, hfails, _⟩
  . exact hok
  . exact absurd hfails copyElems_self_ne_error

theorem copyElems_down_self (hsrcLen : src + len ≤ dstTable.length) (hlt : src < dst)
    : Snapshot fns succeeds heap dstId dstTable dstTable dst src len
        (copyElems fns succeeds dstId dstId dst src (List.range len).reverse heap) := by
  have hid := (List.getElem?_eq_some_iff.mp hdst).1
  have hlength : (slice dstTable.entries src len).length = len := length_slice (by rw [length_entries]; exact hsrcLen)
  unfold Snapshot
  rw [map_convert_slice]
  apply copyElems_backward succeeds hdst hdstLen hlength
  intro k hk table hbecomes
  have hdrop : ((slice dstTable.entries src len).drop (k + 1)).length = len - (k + 1) := by
    rw [length_drop, hlength]
  obtain ⟨entry, hentry⟩ := exists_entry (show src + k < dstTable.length by omega)
  have htable : table.entries[src + k]? = some entry := by
    rw [hbecomes.entries, getElem?_overwrite (by rw [hdrop, length_entries]; omega), if_neg (by omega), hentry]
  refine ⟨table, entry, List.getElem?_set_self hid, fun h => hbecomes.isFunction.trans h, htable, ?_⟩
  rw [← hbecomes.isFunction, convert_of_mem (mem_of_getElem? htable), getElem?_slice, if_pos hk]
  exact hentry

end Copy

theorem copyElems_up_self_iff (hdst : heap[dstId]? = some dstTable)
    (hdstLen : dst + len ≤ dstTable.length) (hsrcLen : src + len ≤ dstTable.length)
    : Snapshot fns succeeds heap dstId dstTable dstTable dst src len
        (copyElems fns succeeds dstId dstId dst src (List.range len) heap)
      ↔ ∀ k < len, dstTable.entries[src + upwards dst src k]? = dstTable.entries[src + k]? := by
  have hid := (List.getElem?_eq_some_iff.mp hdst).1
  have hlength : (slice dstTable.entries src len).length = len := length_slice (by rw [length_entries]; exact hsrcLen)
  have hle (k : Nat) : upwards dst src k ≤ k := by
    unfold upwards
    split
    next => exact Nat.mod_le _ _
    next => exact Nat.le_refl _
  let values := List.ofFn fun k : Fin len => dstTable.entries.get
    ⟨src + upwards dst src k, by have := hle k; have := k.isLt; rw [length_entries]; omega⟩
  have hvalues : ∀ k < len, values[k]? = dstTable.entries[src + upwards dst src k]? := by
    intro k hk
    have := hle k
    rw [List.getElem?_ofFn, dif_pos hk, get_eq_getElem, List.getElem?_eq_getElem]
  have hvaluesLength : values.length = len := length_ofFn
  obtain ⟨table', hrun, hbecomes⟩ :=
    copyElems_up_self hdst hdstLen fns succeeds hvaluesLength hvalues
  have hiff : values = slice dstTable.entries src len
      ↔ ∀ k < len, dstTable.entries[src + upwards dst src k]? = dstTable.entries[src + k]? := by
    constructor
    . intro heq k hk
      rw [← hvalues k hk, heq, getElem?_slice, if_pos hk]
    intro hall
    apply ext_getElem?
    intro k
    by_cases hk : k < len
    . rw [hvalues k hk, hall k hk, getElem?_slice, if_pos hk]
    . rw [List.getElem?_eq_none (by omega), List.getElem?_eq_none (by omega)]
  rw [← hiff]
  unfold Snapshot
  rw [hrun, map_convert_slice]
  constructor
  . rintro (⟨table'', heq, hbecomes'⟩ | ⟨heap', heq, _⟩)
    . have hset := (Prod.mk.inj (Option.some.inj heq)).1
      have hget := congrArg (·[dstId]?) hset
      rw [List.getElem?_set_self hid, List.getElem?_set_self hid] at hget
      cases hget
      exact overwrite_inj (by rw [length_entries]; omega) (by omega) (hbecomes.entries.symm.trans hbecomes'.entries)
    . cases heq
  . intro heq
    exact .inl ⟨table', rfl, heq ▸ hbecomes⟩

def Copies (fns : Functions Obj Code Tls) (succeeds : Nat → Bool) (heap : Heap Obj Code Tls) (dstId : Nat)
    (dstTable srcTable : Table Obj Code Tls) (dst src len : Nat) (result : Option (TableResult Obj Code Tls)) : Prop :=
  if dstTable.length < dst + len ∨ srcTable.length < src + len then result = some (heap, .error .OutOfBounds)
  else Snapshot fns succeeds heap dstId dstTable srcTable dst src len result

-- The same table is copied upwards under two indices, and an element that has been written is read in the place of
-- another one.
def ReadsBack (dstTable : Table Obj Code Tls) (dstTableIndex srcTableIndex dstId srcId dst src len : Nat) : Prop :=
  srcTableIndex ≠ dstTableIndex ∧ srcId = dstId ∧ dst + len ≤ dstTable.length ∧ src + len ≤ dstTable.length ∧ src < dst
    ∧ ∃ k < len, dstTable.entries[src + k % (dst - src)]? ≠ dstTable.entries[src + k]?

theorem tableCopy_eq (hwf : WellFormed heap)
    (hdstIndex : instance'.tables[dstTableIndex]? = some dstId) (hdst : heap[dstId]? = some dstTable)
    (hsrcIndex : instance'.tables[srcTableIndex]? = some srcId) (hsrc : heap[srcId]? = some srcTable)
    (dst src len : UInt32)
    : tableCopy fns succeeds instance' heap dst src len dstTableIndex srcTableIndex
      = if dstTable.length < dst.toNat + len.toNat ∨ srcTable.length < src.toNat + len.toNat then
          some (heap, .error .OutOfBounds)
        else if srcTableIndex = dstTableIndex ∧ src < dst then
          copyElems fns succeeds dstId srcId dst.toNat src.toNat (List.range len.toNat).reverse heap
        else if srcTableIndex = dstTableIndex ∧ dst = src then some (heap, .ok ())
        else copyElems fns succeeds dstId srcId dst.toNat src.toNat (List.range len.toNat) heap := by
  unfold tableCopy
  rw [hsrcIndex, some_bind, hsrc, some_bind, hdstIndex, some_bind, hdst, some_bind]
  dsimp only
  rw [if_congr (or_congr (hwf.outOfBounds_iff hdst dst len) (hwf.outOfBounds_iff hsrc src len)) rfl rfl]

theorem tableCopy_copies_iff (hwf : WellFormed heap)
    (hdstIndex : instance'.tables[dstTableIndex]? = some dstId) (hdst : heap[dstId]? = some dstTable)
    (hsrcIndex : instance'.tables[srcTableIndex]? = some srcId) (hsrc : heap[srcId]? = some srcTable)
    (hkind : dstTable.isFunction = true → srcTable.isFunction = true) (dst src len : UInt32)
    : Copies fns succeeds heap dstId dstTable srcTable dst.toNat src.toNat len.toNat
        (tableCopy fns succeeds instance' heap dst src len dstTableIndex srcTableIndex)
      ↔ ¬ReadsBack dstTable dstTableIndex srcTableIndex dstId srcId dst.toNat src.toNat len.toNat := by
  rw [tableCopy_eq hwf hdstIndex hdst hsrcIndex hsrc]
  unfold Copies
  by_cases hbounds : dstTable.length < dst.toNat + len.toNat ∨ srcTable.length < src.toNat + len.toNat
  . rw [if_pos hbounds, if_pos hbounds]
    refine iff_of_true rfl ?_
    rintro ⟨_, rfl, hdstLen, hsrcLen, _⟩
    cases hdst.symm.trans hsrc
    omega
  rw [if_neg hbounds, if_neg hbounds]
  have hdstLen : dst.toNat + len.toNat ≤ dstTable.length := by omega
  have hsrcLen : src.toNat + len.toNat ≤ srcTable.length := by omega
  by_cases hindex : srcTableIndex = dstTableIndex
  . -- The code knows that the tables are the same.
    subst hindex
    cases hdstIndex.symm.trans hsrcIndex
    cases hdst.symm.trans hsrc
    refine iff_of_true ?_ (fun h => h.1 rfl)
    by_cases hlt : src < dst
    . rw [if_pos ⟨rfl, hlt⟩]
      exact copyElems_down_self hdst hdstLen hsrcLen (UInt32.lt_iff_toNat_lt.mp hlt)
    rw [if_neg (fun h => hlt h.2)]
    by_cases heq : dst = src
    . rw [if_pos ⟨rfl, heq⟩, heq]
      obtain ⟨hid, hget⟩ := List.getElem?_eq_some_iff.mp hdst
      refine .inl ⟨dstTable, ?_, ?_⟩
      . rw [← hget, set_getElem_self hid]
      . rw [map_convert_slice, overwrite_slice (by rw [length_entries]; exact hsrcLen)]
        exact .refl dstTable
    . rw [if_neg (fun h => heq h.2)]
      refine (copyElems_up_self_iff hdst hdstLen hsrcLen).mpr fun k _ => ?_
      unfold upwards
      rw [if_neg (fun h => hlt (UInt32.lt_iff_toNat_lt.mpr h))]
  rw [if_neg (fun h => hindex h.1), if_neg (fun h => hindex h.1)]
  by_cases hid : srcId = dstId
  . subst hid
    cases hdst.symm.trans hsrc
    rw [copyElems_up_self_iff hdst hdstLen hsrcLen]
    unfold upwards
    constructor
    . rintro hall ⟨_, _, _, _, hlt, k, hk, hne⟩
      have hread := hall k hk
      rw [if_pos hlt] at hread
      exact hne hread
    intro hnot k hk
    by_contra hne
    split at hne
    next hlt => exact hnot ⟨hindex, rfl, hdstLen, hsrcLen, hlt, k, hk, hne⟩
    next => exact hne rfl
  . exact iff_of_true (copyElems_of_ne hdst hdstLen hid hsrc hsrcLen hkind) (fun h => hid h.2.1)

def indices : Option ElemSegment → List Nat
  | none => []
  | some seg => seg.elemFuncIndices

def Inits (fns : Functions Obj Code Tls) (succeeds : Nat → Bool) (instance' : Instance Code Tls)
    (heap : Heap Obj Code Tls) (id : Nat) (table : Table Obj Code Tls) (seg : Option ElemSegment) (dst src len : Nat)
    (result : Option (TableResult Obj Code Tls)) : Prop :=
  result = some (heap, .error .OutOfBounds) ∧ (table.length < dst + len ∨ (indices seg).length < src + len)
  ∨ (∃ table', result = some (heap.set id table', .ok ()) ∧ src + len ≤ (indices seg).length
      ∧ (len = 0 ∨ dst + len ≤ table.length) ∧ table.Becomes (overwrite table.entries dst
        ((slice (indices seg) src len).map (segEntry fns instance' table.isFunction))) table')
  ∨ ∃ table', result = some (heap.set id table', .error .OutOfMemory) ∧ ∃ i < len, succeeds i = false

theorem tableInit_inits (hwf : WellFormed heap)
    (hindex : instance'.tables[tableIndex]? = some id) (hid : heap[id]? = some table)
    (hseg : instance'.passiveElemSegments[segIndex]? = some seg) (dst src len : UInt32)
    : Inits fns succeeds instance' heap id table seg dst.toNat src.toNat len.toNat
        (tableInit fns succeeds instance' heap dst src len segIndex tableIndex) := by
  unfold tableInit Inits
  rw [hseg]
  cases seg with
  | none =>
    dsimp only [indices, length_nil]
    by_cases hzero : len = 0 ∧ src = 0
    . obtain ⟨rfl, rfl⟩ := hzero
      obtain ⟨hlt, hget⟩ := List.getElem?_eq_some_iff.mp hid
      refine .inr (.inl ⟨table, ?_, Nat.le_refl 0, .inl rfl, ?_⟩)
      . rw [if_pos ⟨rfl, rfl⟩, ← hget, set_getElem_self hlt]
      . rw [slice_nil, map_nil, overwrite_nil]
        exact .refl table
    . refine .inl ⟨if_neg hzero, .inr ?_⟩
      rw [← UInt32.toNat_inj, ← UInt32.toNat_inj, UInt32.toNat_zero] at hzero
      omega
  | some seg =>
    dsimp only [indices]
    rw [hindex, some_bind, hid, some_bind]
    have hsrcIff : src.toUInt64 + len.toUInt64 > (UInt32.ofNat seg.elemFuncIndices.length).toUInt64
        ↔ seg.elemFuncIndices.length < src.toNat + len.toNat := by
      rw [toUInt64_add_gt_iff, UInt32.toNat_ofNat_of_lt' seg.length_lt]
    by_cases hbounds : table.length < dst.toNat + len.toNat ∨ seg.elemFuncIndices.length < src.toNat + len.toNat
    . exact .inl ⟨if_pos (by rw [hwf.outOfBounds_iff hid, hsrcIff]; exact hbounds), hbounds⟩
    rw [if_neg (by rw [hwf.outOfBounds_iff hid, hsrcIff]; exact hbounds)]
    have hdstLen : dst.toNat + len.toNat ≤ table.length := by omega
    have hsrcLen : src.toNat + len.toNat ≤ seg.elemFuncIndices.length := by omega
    have hstart : table.Becomes (overwrite table.entries dst.toNat (List.take 0
        ((slice seg.elemFuncIndices src.toNat len.toNat).map (segEntry fns instance' table.isFunction)))) table := by
      rw [take_zero, overwrite_nil]
      exact .refl table
    obtain ⟨table', result, hrun, hresult⟩ := initElems_becomes fns succeeds instance' seg
      (Nat.zero_add len.toNat) hdstLen hsrcLen rfl hstart
    rw [range_eq_range', hrun]
    rcases hresult with ⟨rfl, hbecomes⟩ | ⟨rfl, hfails⟩
    . exact .inr (.inl ⟨table', rfl, hsrcLen, .inr hdstLen, hbecomes⟩)
    . exact .inr (.inr ⟨table', rfl, hfails⟩)

theorem fill_becomes (fns : Functions Obj Code Tls) {start n : Nat} (h : start + n ≤ table.length) (value : Option Obj)
    : ∃ table', fill fns table start n value = some table' ∧ table.Becomes
      (overwrite table.entries start (List.replicate n (entry fns table.isFunction value))) table' := by
  unfold fill
  cases hkind : table.isFunction with
  | true => exact fillFuncRef_becomes hkind h value
  | false => exact fillAnyRef_becomes hkind h value

theorem fill_zero (fns : Functions Obj Code Tls) (table : Table Obj Code Tls) (start : Nat) (value : Option Obj)
    : fill fns table start 0 value = some table := by
  unfold fill
  split
  next => cases value <;> rfl
  next => rfl

def Fills (fns : Functions Obj Code Tls) (heap : Heap Obj Code Tls) (id : Nat) (table : Table Obj Code Tls)
    (start : Nat) (value : Option Obj) (len : Nat) (result : Option (TableResult Obj Code Tls)) : Prop :=
  if table.length < start + len then result = some (heap, .error .OutOfBounds)
  else ∃ table', result = some (heap.set id table', .ok ())
    ∧ table.Becomes (overwrite table.entries start (List.replicate len (entry fns table.isFunction value))) table'

theorem tableFill_fills (hwf : WellFormed heap)
    (hindex : instance'.tables[tableIndex]? = some id) (hid : heap[id]? = some table) (start : UInt32)
    (value : Option Obj) (len : UInt32)
    : Fills fns heap id table start.toNat value len.toNat (tableFill fns instance' heap start value len tableIndex) := by
  unfold tableFill Fills
  rw [hindex, some_bind, hid, some_bind]
  dsimp only
  rw [if_congr (hwf.outOfBounds_iff hid start len) rfl rfl]
  split
  next => rfl
  next hbounds =>
    obtain ⟨table', hfill, hbecomes⟩ := fill_becomes fns (Nat.le_of_not_lt hbounds) value
    rw [hfill]
    exact ⟨table', rfl, hbecomes⟩

structure Fits (allocates : Bool) (delta : Nat) (table : Table Obj Code Tls) : Prop where
  length_le : table.length + delta ≤ MaxTableLength
  maximum_le : ∀ maximum ∈ table.maximum, table.length + delta ≤ maximum
  allocates : allocates = true

theorem maximum_any_iff {maximum : Option Nat} {length : Nat}
    : (maximum.any fun maximum => decide (length > maximum)) = true ↔ ¬∀ limit ∈ maximum, length ≤ limit := by
  cases maximum with
  | none => simp
  | some limit => simp

theorem grow_of_not_fits {allocates : Bool} {delta : Nat} (hdelta : delta ≠ 0) (h : ¬Fits allocates delta table)
    : table.grow allocates delta = (GrowFailed, table) := by
  unfold grow
  rw [if_neg hdelta]
  by_cases hlength : table.length + delta ≤ MaxTableLength
  case neg => exact if_pos (.inr (Nat.lt_of_not_le hlength))
  rw [if_neg (by unfold MaxTableLength at hlength ⊢; omega), if_congr maximum_any_iff rfl rfl]
  by_cases hmaximum : ∀ maximum ∈ table.maximum, table.length + delta ≤ maximum
  case neg => exact if_pos hmaximum
  rw [if_neg (not_not.mpr hmaximum)]
  cases allocates with
  | false => rfl
  | true => exact absurd ⟨hlength, hmaximum, rfl⟩ h

theorem grow_of_fits {allocates : Bool} {delta : Nat} (hdelta : delta ≠ 0) (h : Fits allocates delta table)
    : ∃ table', table.grow allocates delta = (table.length, table')
      ∧ table.Becomes (table.entries ++ List.replicate delta (null table.isFunction)) table' := by
  have hlength := h.length_le
  unfold grow
  rw [if_neg hdelta, if_neg (by unfold MaxTableLength at hlength ⊢; omega), if_congr maximum_any_iff rfl rfl,
    if_neg (not_not.mpr h.maximum_le), if_neg (by rw [h.allocates]; decide)]
  obtain ⟨elements, maximum⟩ := table
  cases elements with
  | functions functions => exact ⟨_, rfl, map_append.trans (congrArg _ map_replicate), rfl, rfl⟩
  | objects objects => exact ⟨_, rfl, map_append.trans (congrArg _ map_replicate), rfl, rfl⟩

def Grows (fns : Functions Obj Code Tls) (heap : Heap Obj Code Tls) (id : Nat) (table : Table Obj Code Tls)
    (initValue : Option Obj) (delta : Nat) (allocates : Bool) (result : Option (Heap Obj Code Tls × Nat)) : Prop :=
  (delta = 0 ∨ Fits allocates delta table) ∧ (∃ table', result = some (heap.set id table', table.length)
      ∧ table.Becomes (table.entries ++ List.replicate delta (entry fns table.isFunction initValue)) table')
  ∨ ¬(delta = 0 ∨ Fits allocates delta table) ∧ result = some (heap, GrowFailed)

theorem tableGrow_grows (hindex : instance'.tables[tableIndex]? = some id)
    (hid : heap[id]? = some table) (initValue : Option Obj) (delta : UInt32) (allocates : Bool)
    : Grows fns heap id table initValue delta.toNat allocates
        (tableGrow fns instance' heap initValue delta allocates tableIndex) := by
  unfold tableGrow
  rw [hindex, some_bind, hid, some_bind]
  obtain ⟨hlt, hget⟩ := List.getElem?_eq_some_iff.mp hid
  have hsame : heap.set id table = heap := by
    rw [← hget]
    exact set_getElem_self hlt
  by_cases hzero : delta.toNat = 0
  . -- Nothing is written, whatever the value.
    refine .inl ⟨.inl hzero, table, ?_, ?_⟩
    . have hgrow : table.grow allocates 0 = (table.length, table) := if_pos rfl
      rw [hzero, hgrow]
      dsimp only
      rw [fill_zero, some_bind, ite_self]
    . rw [hzero, replicate_zero, append_nil]
      exact .refl table
  by_cases hfits : Fits allocates delta.toNat table
  case neg =>
    refine .inr ⟨not_or.mpr ⟨hzero, hfits⟩, ?_⟩
    rw [grow_of_not_fits hzero hfits]
    dsimp only
    rw [if_neg (fun h => h.1 rfl), hsame]
  refine .inl ⟨.inr hfits, ?_⟩
  obtain ⟨table', hgrow, hbecomes⟩ := grow_of_fits hzero hfits
  rw [hgrow]
  dsimp only
  cases initValue with
  | none =>
    rw [if_neg (fun h => Bool.false_ne_true h.2)]
    refine ⟨table', rfl, ?_⟩
    unfold entry
    exact hbecomes
  | some value =>
    have hle := hfits.length_le
    rw [if_pos ⟨by unfold MaxTableLength at hle; unfold GrowFailed; omega, rfl⟩]
    have hlength : table'.length = table.length + delta.toNat := by
      rw [← length_entries, hbecomes.entries, length_append, length_entries, length_replicate]
    obtain ⟨table'', hfill, hbecomes'⟩ := fill_becomes fns (Nat.le_of_eq hlength.symm) (some value)
    refine ⟨table'', ?_, ?_⟩
    . rw [hfill]
      rfl
    have htrans := hbecomes.trans hbecomes'
    rw [hbecomes.entries, hbecomes.isFunction, ← length_entries table, overwrite_append] at htrans
    . exact htrans
    . rw [length_replicate, length_replicate]

-- The instructions on ranges of tables act on a snapshot, up to copies within a table under two indices.
theorem bulkTables_snapshot_iff {dstTableIndex srcTableIndex : Nat} (hwf : WellFormed heap)
    (hdstIndex : instance'.tables[dstTableIndex]? = some dstId) (hdst : heap[dstId]? = some dstTable)
    (hsrcIndex : instance'.tables[srcTableIndex]? = some srcId) (hsrc : heap[srcId]? = some srcTable)
    (hkind : dstTable.isFunction = true → srcTable.isFunction = true)
    : (∀ dst src len : UInt32, Copies fns succeeds heap dstId dstTable srcTable dst.toNat src.toNat len.toNat
          (tableCopy fns succeeds instance' heap dst src len dstTableIndex srcTableIndex)
        ↔ ¬ReadsBack dstTable dstTableIndex srcTableIndex dstId srcId dst.toNat src.toNat len.toNat)
      ∧ (∀ (segIndex : Nat) (seg : Option ElemSegment), instance'.passiveElemSegments[segIndex]? = some seg →
          ∀ dst src len : UInt32, Inits fns succeeds instance' heap dstId dstTable seg dst.toNat src.toNat len.toNat
            (tableInit fns succeeds instance' heap dst src len segIndex dstTableIndex))
      ∧ (∀ (start : UInt32) (value : Option Obj) (len : UInt32),
          Fills fns heap dstId dstTable start.toNat value len.toNat
            (tableFill fns instance' heap start value len dstTableIndex))
      ∧ ∀ (initValue : Option Obj) (delta : UInt32) (allocates : Bool),
          Grows fns heap dstId dstTable initValue delta.toNat allocates
            (tableGrow fns instance' heap initValue delta allocates dstTableIndex) :=
  ⟨tableCopy_copies_iff hwf hdstIndex hdst hsrcIndex hsrc hkind,
    fun _ _ hseg => tableInit_inits hwf hdstIndex hdst hseg, tableFill_fills hwf hdstIndex hdst,
    tableGrow_grows hdstIndex hdst⟩

def aliasingInstance : Instance Unit Unit where
  tables := [0, 0]
  passiveElemSegments := [none]
  funcImports := []
  funcTableEntry := fun _ => ()
  tlsData := ()

def threeObjects : Table Nat Unit Unit := ⟨.objects [some 0, some 1, some 2], none⟩

def noFunctions : Functions Nat Unit Unit where
  getExportedFunction := fun _ _ => 0
  funcTableEntry := fun _ => ((), ())
  refFunc := fun _ => 0

theorem wellFormed_threeObjects : WellFormed [threeObjects] := by
  intro table htable
  cases mem_singleton.mp htable
  decide

theorem bulkTables_snapshot_of_threeObjects
    : Copies noFunctions (fun _ => true) [threeObjects] 0 threeObjects threeObjects 1 0 2
        (tableCopy noFunctions (fun _ => true) aliasingInstance [threeObjects] 1 0 2 0 0) := by
  have hindex : aliasingInstance.tables[0]? = some 0 := rfl
  exact ((bulkTables_snapshot_iff wellFormed_threeObjects hindex rfl hindex rfl id).1 1 0 2).mpr fun h => h.1 rfl

theorem tableCopy_of_aliasingInstance
    : ¬Copies noFunctions (fun _ => true) [threeObjects] 0 threeObjects threeObjects 1 0 2
        (tableCopy noFunctions (fun _ => true) aliasingInstance [threeObjects] 1 0 2 0 1) := by
  have hrun : tableCopy noFunctions (fun _ => true) aliasingInstance [threeObjects] 1 0 2 0 1
      = some ([⟨.objects [some 0, some 0, some 0], none⟩], .ok ()) := by rfl
  unfold Copies
  rw [if_neg (by decide), hrun]
  rintro (⟨table', heq, hbecomes⟩ | ⟨heap', heq, _⟩)
  . cases heq
    exact absurd hbecomes.entries (by decide)
  . cases heq

end Instance
end SpiderMonkey.Wasm
