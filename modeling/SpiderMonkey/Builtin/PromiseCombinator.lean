import Mathlib.Data.List.Nodup
import Mathlib.Data.List.Perm.Subperm
import SpiderMonkey.Builtin.Impl.PromiseCombinator
import SpiderMonkey.Lib.Run

/-!
This module contains the verification of the promise combinators: each element is settled once, the result is settled
with the first results of all of them, and so it is over whole runs.
-/

open List

namespace SpiderMonkey.PromiseCombinator

variable {α : Type}

section FirstResult

variable {kind : CombinatorKind} {i : Nat} {call : ElementCall α} {calls : List (ElementCall α)}

theorem firstResult_cons_of_some {value : JSValue α} (h : firstResult kind i calls = some value)
    : firstResult kind i (call :: calls) = some value := by
  simp only [firstResult, h]

theorem firstResult_cons_of_ne (h : call.index ≠ i)
    : firstResult kind i (call :: calls) = firstResult kind i calls := by
  simp only [firstResult, h, false_and, if_false]
  split
  next heq => exact heq.symm
  next heq => exact heq.symm

theorem firstResult_cons_of_not_delivers (h : delivers calls call = false)
    : firstResult kind i (call :: calls) = firstResult kind i calls := by
  simp only [firstResult, h, Bool.false_eq_true, and_false, if_false]
  split
  next heq => exact heq.symm
  next heq => exact heq.symm

theorem firstResult_cons_of_delivers (hnone : firstResult kind call.index calls = none) (h : delivers calls call = true)
    : firstResult kind call.index (call :: calls) = some (resultOf kind call) := by
  simp only [firstResult, hnone, h, and_self, if_true]

theorem exists_call_of_firstResult {value : JSValue α} (h : firstResult kind i calls = some value)
    : ∃ c ∈ calls, c.index = i ∧ value = resultOf kind c := by
  induction calls with
  | nil => contradiction
  | cons c calls ih =>
    unfold firstResult at h
    split at h
    next v hv =>
      cases h
      obtain ⟨c', hmem, hc⟩ := ih hv
      exact ⟨c', mem_cons_of_mem c hmem, hc⟩
    next =>
      split at h
      next hcond =>
        exact ⟨c, mem_cons_self, hcond.1, (Option.some.inj h).symm⟩
      next => contradiction

theorem delivers_eq_true
    : delivers calls call = true ↔ call.deadWrapper = false ∧ call.outOfMemory = false
        ∧ ∀ c ∈ calls, ¬ (c.index = call.index ∧ c.function = call.function) := by
  simp only [delivers, ne_eq, decide_not, Bool.and_eq_true, Bool.not_eq_eq_eq_not, Bool.not_true,
    all_eq_true, Bool.or_eq_true, decide_eq_false_iff_not, and_assoc, not_and_or]

end FirstResult

structure SettledOnce (s : PromiseCombinator α) : Prop where
  stores_nodup : s.stores.Nodup
  inBounds : s.inBounds = true
  remainingCount_nonneg : 0 ≤ s.remainingCount
  resolvedWith_length : s.resolvedWith.length ≤ 1
  resolvedWith : ∀ array ∈ s.resolvedWith, s.iteration = .done
    ∧ array.map some = (List.range s.index).map (fun i => firstResult s.kind i s.calls)

-- An element function of `allSettled` that was not called before finds its element among the
-- initialized ones, and finds it settled, when script already has the array.
def FindsSettled (s : PromiseCombinator α) (event : CombinatorEvent α) : Prop :=
  match event with
  | .callElementFunction call =>
    s.kind = .allSettled → s.resolvedWith ≠ [] → s.functionData call.index call.function = true →
      call.deadWrapper = false →
      call.index < s.values.length
        ∧ (s.values[call.index]? = some .undefined → call.outOfMemory = true)
  | _ => True

structure Inv (s : PromiseCombinator α) : Prop where
  length : s.resolvedWith = [] → s.index ≤ s.values.length
    ∧ (s.iteration ≠ .failed → s.values.length = s.index)
  values : s.resolvedWith = [] → ∀ i < s.index,
    s.values[i]? = some ((firstResult s.kind i s.calls).getD .undefined)
  stores_nodup : s.stores.Nodup
  mem_stores : ∀ i, i ∈ s.stores ↔ i < s.index ∧ (firstResult s.kind i s.calls).isSome
  count : s.remainingCount + s.stores.length = s.index + (if s.iteration = .done then 0 else 1)
  data : ∀ i f, s.functionData i f = true ↔ i < s.index ∧ isElementFunction s.kind f = true
    ∧ ∀ c ∈ s.calls, ¬ (c.index = i ∧ c.function = f)
  calls : ∀ c ∈ s.calls, c.index < s.index ∧ isElementFunction s.kind c.function = true
  inBounds : s.inBounds = true
  resolved : s.resolvedWith ≠ [] → s.remainingCount = 0 ∧ s.iteration = .done
  resolvedWith_length : s.resolvedWith.length ≤ 1
  resolvedWith : ∀ array ∈ s.resolvedWith,
    array.map some = (List.range s.index).map (fun i => firstResult s.kind i s.calls)

namespace Inv

variable {s : PromiseCombinator α}

theorem new (kind : CombinatorKind) : Inv (New kind : PromiseCombinator α) where
  length _ := ⟨Nat.le_refl 0, fun _ => rfl⟩
  values _ i hi := absurd hi (Nat.not_lt_zero i)
  stores_nodup := nodup_nil
  mem_stores i := by simp [New]
  count := rfl
  data i f := by simp [New]
  calls c hc := absurd hc not_mem_nil
  inBounds := rfl
  resolved h := absurd rfl h
  resolvedWith_length := Nat.zero_le 1
  resolvedWith array harray := absurd harray not_mem_nil

theorem stores_length_le (h : Inv s) : s.stores.length ≤ s.index := by
  have hsub : s.stores ⊆ List.range s.index := by
    intro i hi
    exact mem_range.mpr ((h.mem_stores i).mp hi).1
  have := (h.stores_nodup.subperm hsub).length_le
  rwa [length_range] at this

theorem mem_stores_of_length_eq (h : Inv s) (hlength : s.stores.length = s.index) {i : Nat}
    (hi : i < s.index)
    : i ∈ s.stores := by
  have hsub : s.stores ⊆ List.range s.index := by
    intro i hi
    exact mem_range.mpr ((h.mem_stores i).mp hi).1
  have hle : (List.range s.index).length ≤ s.stores.length :=
    Nat.le_of_eq (length_range.trans hlength.symm)
  have hperm := (h.stores_nodup.subperm hsub).perm_of_length_le hle
  exact hperm.mem_iff.mpr (mem_range.mpr hi)

theorem length_stores_of_resolved (h : Inv s) (hresolved : s.resolvedWith ≠ [])
    : s.stores.length = s.index := by
  obtain ⟨hcount, hdone⟩ := h.resolved hresolved
  have := h.count
  rw [hcount, hdone, if_pos rfl] at this
  omega

theorem firstResult_of_resolved (h : Inv s) (hresolved : s.resolvedWith ≠ []) {i : Nat}
    (hi : i < s.index)
    : ∃ value, firstResult s.kind i s.calls = some value := by
  have hmem := h.mem_stores_of_length_eq (h.length_stores_of_resolved hresolved) hi
  exact Option.isSome_iff_exists.mp ((h.mem_stores i).mp hmem).2

theorem settledOnce (h : Inv s) : SettledOnce s := by
  constructor
  . exact h.stores_nodup
  . exact h.inBounds
  . have hcount := h.count
    have hle := h.stores_length_le
    split at hcount <;> omega
  . exact h.resolvedWith_length
  . intro array harray
    exact ⟨(h.resolved (ne_nil_of_mem harray)).2, h.resolvedWith array harray⟩

theorem resolvedWith_of_ne_done (h : Inv s) (hiter : s.iteration ≠ .done) : s.resolvedWith = [] := by
  by_contra hne
  exact hiter (h.resolved hne).2

theorem failIteration (h : Inv s) (hiter : s.iteration = .iterating) : Inv s.failIteration := by
  have hresolved := h.resolvedWith_of_ne_done (by rw [hiter]; exact nofun)
  constructor
  . intro _
    exact ⟨(h.length hresolved).1, fun hne => absurd rfl hne⟩
  . exact h.values
  . exact h.stores_nodup
  . exact h.mem_stores
  . have := h.count
    rw [hiter] at this
    exact this
  . exact h.data
  . exact h.calls
  . exact h.inBounds
  . intro hne
    exact absurd hresolved hne
  . exact h.resolvedWith_length
  . exact h.resolvedWith

theorem pushUndefined_failIteration (h : Inv s) (hiter : s.iteration = .iterating)
    : Inv s.pushUndefined.failIteration := by
  have hresolved := h.resolvedWith_of_ne_done (by rw [hiter]; exact nofun)
  have hfail := h.failIteration hiter
  constructor
  . intro _
    refine ⟨?_, fun hne => absurd rfl hne⟩
    have := (h.length hresolved).1
    simp only [PromiseCombinator.failIteration, pushUndefined, length_append]
    omega
  . intro _ i hi
    have hlt : i < s.values.length := Nat.lt_of_lt_of_le hi (h.length hresolved).1
    simp only [PromiseCombinator.failIteration, pushUndefined]
    rw [List.getElem?_append_left hlt]
    exact h.values hresolved i hi
  . exact hfail.stores_nodup
  . exact hfail.mem_stores
  . exact hfail.count
  . exact hfail.data
  . exact hfail.calls
  . exact hfail.inBounds
  . exact hfail.resolved
  . exact hfail.resolvedWith_length
  . exact hfail.resolvedWith

theorem firstResult_of_le (h : Inv s) {i : Nat} (hi : s.index ≤ i)
    : firstResult s.kind i s.calls = none := by
  cases hfirst : firstResult s.kind i s.calls with
  | none => rfl
  | some value =>
    obtain ⟨c, hmem, hc, _⟩ := exists_call_of_firstResult hfirst
    have := (h.calls c hmem).1
    omega

theorem getResolveAndReject (h : Inv s) (hiter : s.iteration = .iterating) (pushFails functionFails : Bool)
    : Inv (s.getResolveAndReject pushFails functionFails) := by
  have hresolved := h.resolvedWith_of_ne_done (by rw [hiter]; exact nofun)
  have hlength := (h.length hresolved).2 (by rw [hiter]; exact nofun)
  unfold PromiseCombinator.getResolveAndReject
  split
  next => exact h.failIteration hiter
  next =>
    split
    next => exact h.pushUndefined_failIteration hiter
    next =>
      simp only [pushUndefined, NewPromiseCombinatorElementFunctions, increaseRemainingCount]
      constructor
      . intro _
        simp only [length_append, length_singleton, hlength]
        exact ⟨Nat.le_refl _, fun _ => trivial⟩
      . intro _ i hi
        dsimp only at hi ⊢
        cases Nat.lt_or_ge i s.index with
        | inl hlt =>
          rw [List.getElem?_append_left (by omega)]
          exact h.values hresolved i hlt
        | inr hge =>
          have heq : i = s.values.length := by omega
          rw [h.firstResult_of_le hge, heq, List.getElem?_concat_length]
          rfl
      . exact h.stores_nodup
      . intro i
        dsimp only
        rw [h.mem_stores i]
        constructor
        . rintro ⟨hi, hsome⟩
          exact ⟨by omega, hsome⟩
        rintro ⟨hi, hsome⟩
        refine ⟨?_, hsome⟩
        by_contra hge
        rw [h.firstResult_of_le (by omega)] at hsome
        contradiction
      . have := h.count
        rw [hiter] at this ⊢
        simp only [reduceCtorEq, if_false] at this ⊢
        omega
      . intro i f
        dsimp only
        cases Decidable.em (i = s.index) with
        | inl heq =>
          subst heq
          rw [Function.update_self]
          constructor
          . intro hf
            refine ⟨Nat.lt_succ_self _, hf, ?_⟩
            intro c hc hcall
            have := (h.calls c hc).1
            omega
          . exact fun hf => hf.2.1
        | inr hne =>
          rw [Function.update_of_ne hne, h.data i f]
          constructor
          . rintro ⟨hi, hrest⟩
            exact ⟨by omega, hrest⟩
          . rintro ⟨hi, hrest⟩
            exact ⟨by omega, hrest⟩
      . intro c hc
        exact ⟨Nat.lt_succ_of_lt (h.calls c hc).1, (h.calls c hc).2⟩
      . exact h.inBounds
      . intro hne
        exact absurd hresolved hne
      . exact h.resolvedWith_length
      . intro array harray
        dsimp only at harray
        rw [hresolved] at harray
        contradiction

theorem settleResult (h : Inv s) (hresolved : s.resolvedWith = []) (hdone : s.iteration = .done)
    (hzero : s.remainingCount = 0) (aggregateErrorFails : Bool)
    : Inv (s.settleResult aggregateErrorFails) := by
  unfold PromiseCombinator.settleResult
  split
  next => exact h
  next =>
    have hcount := h.count
    rw [hdone, hzero, if_pos rfl] at hcount
    have hlength := (h.length hresolved).2 (by rw [hdone]; exact nofun)
    constructor
    . intro hne
      dsimp only at hne
      rw [hresolved] at hne
      contradiction
    . intro hne
      dsimp only at hne
      rw [hresolved] at hne
      contradiction
    . exact h.stores_nodup
    . exact h.mem_stores
    . exact h.count
    . exact h.data
    . exact h.calls
    . exact h.inBounds
    . exact fun _ => ⟨hzero, hdone⟩
    . dsimp only
      rw [hresolved]
      exact Nat.le_refl 1
    intro array harray
    dsimp only at harray ⊢
    rw [hresolved, nil_append, mem_singleton] at harray
    subst harray
    apply ext_getElem?
    intro i
    simp only [List.getElem?_map]
    cases Nat.lt_or_ge i s.index with
    | inl hlt =>
      obtain ⟨value, hvalue⟩ := Option.isSome_iff_exists.mp
        ((h.mem_stores i).mp (h.mem_stores_of_length_eq (by omega) hlt)).2
      rw [h.values hresolved i hlt, List.getElem?_range hlt, Option.map_some, Option.map_some, hvalue]
      rfl
    | inr hge =>
      rw [List.getElem?_eq_none (by omega), List.getElem?_eq_none (by
        rw [length_range]
        omega)]
      rfl

theorem finishIteration (h : Inv s) (hiter : s.iteration = .iterating) (aggregateErrorFails : Bool)
    : Inv (s.finishIteration aggregateErrorFails) := by
  have hresolved := h.resolvedWith_of_ne_done (by rw [hiter]; exact nofun)
  have hlength := h.length hresolved
  have hdone : Inv { s with iteration := .done }.decreaseRemainingCount := by
    constructor
    . intro _
      exact ⟨hlength.1, fun _ => hlength.2 (by rw [hiter]; exact nofun)⟩
    . exact h.values
    . exact h.stores_nodup
    . exact h.mem_stores
    . have := h.count
      rw [hiter] at this
      simp only [decreaseRemainingCount, reduceCtorEq, if_false, if_true] at this ⊢
      omega
    . exact h.data
    . exact h.calls
    . exact h.inBounds
    . intro hne
      exact absurd hresolved hne
    . exact h.resolvedWith_length
    . exact h.resolvedWith
  simp only [PromiseCombinator.finishIteration]
  split
  next hzero => exact hdone.settleResult hresolved rfl hzero aggregateErrorFails
  next => exact hdone

end Inv

def takeData (s : PromiseCombinator α) (call : ElementCall α) : PromiseCombinator α :=
  { s with
    calls := call :: s.calls
    functionData := Function.update s.functionData call.index
      (Function.update (s.functionData call.index) call.function false) }

theorem takeData_functionData (s : PromiseCombinator α) (call : ElementCall α) (i : Nat) (f : ElementFunctionKind)
    : (s.takeData call).functionData i f = true
        ↔ s.functionData i f = true ∧ ¬ (call.index = i ∧ call.function = f) := by
  unfold takeData
  dsimp only
  cases Decidable.em (i = call.index) with
  | inl heq =>
    subst heq
    rw [Function.update_self]
    cases Decidable.em (f = call.function) with
    | inl hf =>
      subst hf
      simp only [Function.update_self, Bool.false_eq_true, and_self, not_true_eq_false, and_false]
    | inr hf =>
      rw [Function.update_of_ne hf]
      simp only [true_and, Ne.symm hf, not_false_eq_true, and_true]
  | inr hne =>
    rw [Function.update_of_ne hne]
    simp only [Ne.symm hne, false_and, not_false_eq_true, and_true]

theorem readElement_of_lt {s : PromiseCombinator α} {i : Nat} (h : i < s.values.length)
    : s.readElement i = s := by
  unfold readElement
  rw [decide_eq_true h, Bool.and_true]

namespace Inv

variable {s : PromiseCombinator α} {call : ElementCall α}

theorem record (h : Inv s) (hindex : call.index < s.index) (hfunction : isElementFunction s.kind call.function = true)
    (hsame : ∀ i, firstResult s.kind i (call :: s.calls) = firstResult s.kind i s.calls)
    {functionData : Nat → ElementFunctionKind → Bool}
    (hdata : ∀ i f, functionData i f = true ↔ s.functionData i f = true ∧ ¬ (call.index = i ∧ call.function = f))
    : Inv { s with calls := call :: s.calls, functionData := functionData } := by
  constructor
  . exact h.length
  . intro hresolved i hi
    dsimp only
    rw [hsame i]
    exact h.values hresolved i hi
  . exact h.stores_nodup
  . intro i
    dsimp only
    rw [hsame i]
    exact h.mem_stores i
  . exact h.count
  . intro i f
    dsimp only
    rw [hdata i f, h.data i f, forall_mem_cons]
    constructor
    . rintro ⟨⟨hi, hf, hall⟩, hne⟩
      exact ⟨hi, hf, hne, hall⟩
    . rintro ⟨hi, hf, hne, hall⟩
      exact ⟨⟨hi, hf, hall⟩, hne⟩
  . intro c hc
    cases mem_cons.mp hc with
    | inl heq =>
      subst heq
      exact ⟨hindex, hfunction⟩
    | inr hmem => exact h.calls c hmem
  . exact h.inBounds
  . exact h.resolved
  . exact h.resolvedWith_length
  . intro array harray
    dsimp only
    rw [h.resolvedWith array harray]
    apply map_congr_left
    intro i _
    exact (hsame i).symm

theorem takeData (h : Inv s) (hindex : call.index < s.index) (hfunction : isElementFunction s.kind call.function = true)
    (hsame : ∀ i, firstResult s.kind i (call :: s.calls) = firstResult s.kind i s.calls)
    : Inv (s.takeData call) :=
  h.record hindex hfunction hsame (takeData_functionData s call)

theorem store (h : Inv s) (hresolved : s.resolvedWith = []) (hindex : call.index < s.index)
    (hfunction : isElementFunction s.kind call.function = true) (hnone : firstResult s.kind call.index s.calls = none)
    (hdelivers : delivers s.calls call = true)
    : Inv ((s.takeData call).setElement call.index (resultOf s.kind call)).decreaseRemainingCount := by
  have hfirst : firstResult s.kind call.index (call :: s.calls) = some (resultOf s.kind call) :=
    firstResult_cons_of_delivers hnone hdelivers
  have hother : ∀ i, i ≠ call.index
      → firstResult s.kind i (call :: s.calls) = firstResult s.kind i s.calls :=
    fun i hne => firstResult_cons_of_ne hne.symm
  have hnot : call.index ∉ s.stores := by
    intro hmem
    have := ((h.mem_stores call.index).mp hmem).2
    rw [hnone] at this
    contradiction
  have hlt : call.index < s.values.length := Nat.lt_of_lt_of_le hindex (h.length hresolved).1
  constructor
  . intro _
    simp only [decreaseRemainingCount, setElement, PromiseCombinator.takeData, length_set]
    exact h.length hresolved
  . intro _ i hi
    simp only [decreaseRemainingCount, setElement, PromiseCombinator.takeData] at hi ⊢
    cases Decidable.em (i = call.index) with
    | inl heq =>
      subst heq
      rw [List.getElem?_set_self hlt, hfirst]
      rfl
    | inr hne =>
      rw [List.getElem?_set_ne (Ne.symm hne), hother i hne]
      exact h.values hresolved i hi
  . simp only [decreaseRemainingCount, setElement, PromiseCombinator.takeData]
    rw [nodup_append]
    refine ⟨h.stores_nodup, nodup_singleton _, ?_⟩
    intro a ha b hb heq
    rw [mem_singleton] at hb
    subst hb
    subst heq
    exact hnot ha
  . intro i
    simp only [decreaseRemainingCount, setElement, PromiseCombinator.takeData, mem_append, mem_singleton]
    cases Decidable.em (i = call.index) with
    | inl heq =>
      subst heq
      rw [hfirst]
      simp only [or_true, hindex, Option.isSome_some, and_self]
    | inr hne =>
      rw [hother i hne, h.mem_stores i]
      simp only [hne, or_false]
  . have := h.count
    have hlength : (s.stores ++ [call.index]).length = s.stores.length + 1 := length_append
    show s.remainingCount - 1 + ((s.stores ++ [call.index]).length : Int)
      = s.index + (if s.iteration = .done then 0 else 1)
    omega
  . intro i f
    simp only [decreaseRemainingCount, setElement]
    rw [takeData_functionData, h.data i f]
    simp only [PromiseCombinator.takeData, forall_mem_cons]
    constructor
    . rintro ⟨⟨hi, hf, hall⟩, hne⟩
      exact ⟨hi, hf, hne, hall⟩
    . rintro ⟨hi, hf, hne, hall⟩
      exact ⟨⟨hi, hf, hall⟩, hne⟩
  . intro c hc
    cases mem_cons.mp hc with
    | inl heq =>
      subst heq
      exact ⟨hindex, hfunction⟩
    | inr hmem => exact h.calls c hmem
  . simp only [decreaseRemainingCount, setElement, PromiseCombinator.takeData, h.inBounds, hlt,
      decide_true, Bool.and_self]
  . intro hne
    exact absurd hresolved hne
  . exact h.resolvedWith_length
  . intro array harray
    simp only [decreaseRemainingCount, setElement, PromiseCombinator.takeData] at harray
    rw [hresolved] at harray
    contradiction

theorem storeResult (h : Inv s) (hresolved : s.resolvedWith = []) (hindex : call.index < s.index)
    (hfunction : isElementFunction s.kind call.function = true) (hnone : firstResult s.kind call.index s.calls = none)
    (hdelivers : delivers s.calls call = true) (aggregateErrorFails : Bool)
    : Inv ((s.takeData call).storeResult call.index (resultOf s.kind call) aggregateErrorFails)
    := by
  have hstore := h.store hresolved hindex hfunction hnone hdelivers
  simp only [PromiseCombinator.storeResult]
  split
  next hzero =>
    apply hstore.settleResult hresolved _ hzero
    have hcount := hstore.count
    have hle := hstore.stores_length_le
    rw [hzero] at hcount
    split at hcount
    next hdone => exact hdone
    next => omega
  next => exact hstore

theorem delivers_of_functionData (h : Inv s)
    (hdata : s.functionData call.index call.function = true) (hdead : call.deadWrapper = false)
    (hmemory : call.outOfMemory = false)
    : delivers s.calls call = true :=
  delivers_eq_true.mpr ⟨hdead, hmemory, ((h.data _ _).mp hdata).2.2⟩

theorem not_delivers_of_functionData (h : Inv s) (hindex : call.index < s.index)
    (hfunction : isElementFunction s.kind call.function = true)
    (hdata : s.functionData call.index call.function = false)
    : delivers s.calls call = false := by
  by_contra hdelivers
  rw [Bool.not_eq_false, delivers_eq_true] at hdelivers
  have := (h.data _ _).mpr ⟨hindex, hfunction, hdelivers.2.2⟩
  rw [hdata] at this
  contradiction

theorem isElementFunction_unique {kind : CombinatorKind} (hkind : kind ≠ .allSettled)
    (hf : isElementFunction kind f = true) (hg : isElementFunction kind g = true)
    : f = g := by
  cases kind with
  | all =>
    cases f <;> cases g <;> first | rfl | contradiction
  | allSettled => contradiction
  | any =>
    cases f <;> cases g <;> first | rfl | contradiction

theorem firstResult_of_functionData (h : Inv s) (hkind : s.kind ≠ .allSettled)
    (hdata : s.functionData call.index call.function = true)
    : firstResult s.kind call.index s.calls = none := by
  obtain ⟨_, hfunction, hfresh⟩ := (h.data _ _).mp hdata
  cases hfirst : firstResult s.kind call.index s.calls with
  | none => rfl
  | some value =>
    obtain ⟨c, hmem, hc, _⟩ := exists_call_of_firstResult hfirst
    have hf := isElementFunction_unique hkind (h.calls c hmem).2 hfunction
    exact absurd ⟨hc, hf⟩ (hfresh c hmem)

theorem resolvedWith_of_firstResult (h : Inv s) {i : Nat} (hi : i < s.index)
    (hnone : firstResult s.kind i s.calls = none)
    : s.resolvedWith = [] := by
  by_contra hne
  obtain ⟨value, hvalue⟩ := h.firstResult_of_resolved hne hi
  rw [hnone] at hvalue
  contradiction

theorem allElementFunction (h : Inv s) (hkind : s.kind ≠ .allSettled)
    (hdata : s.functionData call.index call.function = true)
    : Inv ((s.takeData call).allElementFunction call) := by
  obtain ⟨hindex, hfunction, _⟩ := (h.data _ _).mp hdata
  have hnone := h.firstResult_of_functionData hkind hdata
  unfold PromiseCombinator.allElementFunction
  split
  next herror =>
    apply h.takeData hindex hfunction
    intro i
    apply firstResult_cons_of_not_delivers
    rw [← Bool.not_eq_true, delivers_eq_true]
    rintro ⟨hdead, hmemory, _⟩
    rw [hdead, hmemory] at herror
    contradiction
  next hok =>
    simp only [Bool.or_eq_true, not_or, Bool.not_eq_true] at hok
    have hdelivers := h.delivers_of_functionData hdata hok.1 hok.2
    have hresult : resultOf s.kind call = call.value := by
      unfold resultOf
      split
      next heq => exact absurd heq hkind
      next => rfl
    rw [← hresult]
    exact h.storeResult (h.resolvedWith_of_firstResult hindex hnone) hindex hfunction hnone hdelivers
      call.aggregateErrorFails

theorem getD_firstResult_eq_undefined {i : Nat} {calls : List (ElementCall α)}
    : (firstResult .allSettled i calls).getD .undefined = .undefined ↔ firstResult .allSettled i calls = none := by
  cases hfirst : firstResult .allSettled i calls with
  | none => simp only [Option.getD_none]
  | some value =>
    obtain ⟨c, _, _, hvalue⟩ := exists_call_of_firstResult hfirst
    subst hvalue
    simp only [resultOf, Option.getD_some, reduceCtorEq]

variable [DecidableEq α]

theorem allSettledElementFunction_of_resolved (h : Inv s) (hkind : s.kind = .allSettled)
    (hdata : s.functionData call.index call.function = true) (hresolved : s.resolvedWith ≠ [])
    (hfinds : FindsSettled s (.callElementFunction call))
    : Inv ((s.takeData call).allSettledElementFunction call) := by
  obtain ⟨hindex, hfunction, _⟩ := (h.data _ _).mp hdata
  have htake : Inv (s.takeData call) := by
    apply h.takeData hindex hfunction
    intro i
    cases Decidable.em (call.index = i) with
    | inl heq =>
      subst heq
      obtain ⟨value, hvalue⟩ := h.firstResult_of_resolved hresolved hindex
      rw [firstResult_cons_of_some hvalue, hvalue]
    | inr hne => exact firstResult_cons_of_ne hne
  unfold PromiseCombinator.allSettledElementFunction
  split
  next => exact htake
  next hdead =>
    obtain ⟨hlt, hmemory⟩ := hfinds hkind hresolved hdata (Bool.not_eq_true _ ▸ hdead)
    have hread : (s.takeData call).readElement call.index = s.takeData call :=
      readElement_of_lt hlt
    rw [hread]
    split
    next => exact htake
    next hundefined =>
      rw [ne_eq, not_not] at hundefined
      have hget : (s.takeData call).values[call.index]? = some (s.values[call.index]) :=
        List.getElem?_eq_getElem hlt
      rw [getDenseElement, hget, Option.getD_some] at hundefined
      have hfails := hmemory (by rw [List.getElem?_eq_getElem hlt, hundefined])
      rw [hfails, if_pos rfl]
      exact htake

theorem allSettledElementFunction_of_not_resolved (h : Inv s) (hkind : s.kind = .allSettled)
    (hdata : s.functionData call.index call.function = true) (hresolved : s.resolvedWith = [])
    : Inv ((s.takeData call).allSettledElementFunction call) := by
  obtain ⟨hindex, hfunction, _⟩ := (h.data _ _).mp hdata
  have hlt : call.index < s.values.length := Nat.lt_of_lt_of_le hindex (h.length hresolved).1
  have hread : (s.takeData call).readElement call.index = s.takeData call := readElement_of_lt hlt
  have hget : (s.takeData call).getDenseElement call.index
      = (firstResult s.kind call.index s.calls).getD .undefined := by
    unfold getDenseElement PromiseCombinator.takeData
    dsimp only
    rw [h.values hresolved call.index hindex, Option.getD_some]
  have htake (hsame : delivers s.calls call = false
      ∨ firstResult s.kind call.index s.calls ≠ none) : Inv (s.takeData call) := by
    apply h.takeData hindex hfunction
    intro i
    cases hsame with
    | inl hnot => exact firstResult_cons_of_not_delivers hnot
    | inr hsome =>
      cases Decidable.em (call.index = i) with
      | inl heq =>
        subst heq
        obtain ⟨value, hvalue⟩ := Option.ne_none_iff_exists'.mp hsome
        rw [firstResult_cons_of_some hvalue, hvalue]
      | inr hne => exact firstResult_cons_of_ne hne
  unfold PromiseCombinator.allSettledElementFunction
  rw [hread, hget]
  split
  next hdead =>
    apply htake
    left
    rw [← Bool.not_eq_true, delivers_eq_true, hdead]
    exact fun hd => nomatch hd.1
  next hdead =>
    split
    next hsettled =>
      apply htake
      right
      intro hnone
      rw [hnone] at hsettled
      exact hsettled rfl
    next hundefined =>
      rw [ne_eq, not_not, hkind, getD_firstResult_eq_undefined, ← hkind] at hundefined
      split
      next hmemory =>
        apply htake
        left
        rw [← Bool.not_eq_true, delivers_eq_true, hmemory]
        exact fun hd => nomatch hd.2.1
      next hmemory =>
        have hdelivers := h.delivers_of_functionData hdata ((Bool.not_eq_true _).mp hdead)
          ((Bool.not_eq_true _).mp hmemory)
        have hresult : resultOf s.kind call = .settled call.function call.value := by
          rw [hkind]
          rfl
        rw [← hresult]
        exact h.storeResult hresolved hindex hfunction hundefined hdelivers call.aggregateErrorFails

theorem callElementFunction (h : Inv s) (hindex : call.index < s.index)
    (hfunction : isElementFunction s.kind call.function = true) (hfinds : FindsSettled s (.callElementFunction call))
    : Inv (s.callElementFunction call) := by
  unfold PromiseCombinator.callElementFunction
  dsimp only
  split
  next hdata =>
    split
    next hkind =>
      cases Decidable.em (s.resolvedWith = []) with
      | inl hresolved => exact h.allSettledElementFunction_of_not_resolved hkind hdata hresolved
      | inr hresolved =>
        exact h.allSettledElementFunction_of_resolved hkind hdata hresolved hfinds
    next hkind => exact h.allElementFunction hkind hdata
  next hdata =>
    have hnot := h.not_delivers_of_functionData hindex hfunction ((Bool.not_eq_true _).mp hdata)
    apply h.record hindex hfunction (fun i => firstResult_cons_of_not_delivers hnot)
    intro i f
    constructor
    . intro hlive
      refine ⟨hlive, ?_⟩
      rintro ⟨rfl, rfl⟩
      exact hdata hlive
    . exact fun hlive => hlive.1

theorem step (h : Inv s) (hfinds : FindsSettled s event) (hstep : s.step event = some s')
    : Inv s' := by
  unfold PromiseCombinator.step at hstep
  split at hstep
  next pushFails functionFails =>
    split at hstep
    next hiter =>
      cases hstep
      exact h.getResolveAndReject hiter pushFails functionFails
    next => contradiction
  next =>
    split at hstep
    next hiter =>
      cases hstep
      exact h.failIteration hiter
    next => contradiction
  next aggregateErrorFails =>
    split at hstep
    next hiter =>
      cases hstep
      exact h.finishIteration hiter aggregateErrorFails
    next => contradiction
  next call =>
    split at hstep
    next hcall =>
      cases hstep
      exact h.callElementFunction hcall.1 hcall.2 hfinds
    next => contradiction
  next values =>
    split at hstep
    next hresolved =>
      cases hstep
      exact {
        length := fun hne => absurd hne hresolved
        values := fun hne => absurd hne hresolved
        stores_nodup := h.stores_nodup
        mem_stores := h.mem_stores
        count := h.count
        data := h.data
        calls := h.calls
        inBounds := h.inBounds
        resolved := h.resolved
        resolvedWith_length := h.resolvedWith_length
        resolvedWith := h.resolvedWith }
    next => contradiction

end Inv

variable {α : Type} [DecidableEq α]

omit [DecidableEq α] in
theorem storeResult_stores (s : PromiseCombinator α) (index : Nat) (value : JSValue α) (aggregateErrorFails : Bool)
    : (s.storeResult index value aggregateErrorFails).stores = s.stores ++ [index] := by
  simp only [storeResult]
  split
  next =>
    unfold settleResult
    split <;> rfl
  next => rfl

-- The first call of the other function of a pair stores again what script made `undefined`, or
-- reads what script has removed.
theorem not_settledOnce_of_not_findsSettled {s s' : PromiseCombinator α}
    (h : Inv s) (hfinds : ¬ FindsSettled s event) (hstep : s.step event = some s')
    : ¬ SettledOnce s' := by
  cases event with
  | callElementFunction call =>
    simp only [FindsSettled, Classical.not_imp] at hfinds
    obtain ⟨hkind, hresolved, hdata, hdead, hfinds⟩ := hfinds
    obtain ⟨hindex, hfunction, _⟩ := (h.data _ _).mp hdata
    simp only [step, hindex, hfunction, and_self, if_true, Option.some.injEq] at hstep
    subst hstep
    have heq : s.callElementFunction call = (s.takeData call).allSettledElementFunction call := by
      simp only [callElementFunction, hdata, if_true, hkind, takeData]
    rw [heq]
    intro hsettled
    simp only [allSettledElementFunction, hdead, Bool.false_eq_true, if_false] at hsettled
    cases Nat.lt_or_ge call.index s.values.length with
    | inl hlt =>
      have hundefined : s.values[call.index]? = some .undefined ∧ ¬ call.outOfMemory = true := by
        by_contra hne
        apply hfinds
        refine ⟨hlt, fun hu => ?_⟩
        by_contra hmemory
        exact hne ⟨hu, hmemory⟩
      have hget : (s.takeData call).getDenseElement call.index = .undefined := by
        unfold getDenseElement takeData
        dsimp only
        rw [hundefined.1, Option.getD_some]
      have hread : (s.takeData call).readElement call.index = s.takeData call :=
        readElement_of_lt hlt
      rw [hget, if_neg (not_not.mpr rfl), if_neg hundefined.2, hread] at hsettled
      have hmem := h.mem_stores_of_length_eq (h.length_stores_of_resolved hresolved) hindex
      have hstores : ((s.takeData call).storeResult call.index
          (.settled call.function call.value) call.aggregateErrorFails).stores
          = s.stores ++ [call.index] :=
        storeResult_stores _ _ _ _
      have hnodup := hsettled.stores_nodup
      rw [hstores, nodup_append] at hnodup
      exact hnodup.2.2 _ hmem _ (mem_singleton.mpr rfl) rfl
    | inr hge =>
      have hget : (s.takeData call).getDenseElement call.index = .hole := by
        unfold getDenseElement takeData
        dsimp only
        rw [List.getElem?_eq_none hge, Option.getD_none]
      rw [hget, if_pos nofun] at hsettled
      have hbounds := hsettled.inBounds
      simp only [readElement, takeData, Bool.and_eq_true] at hbounds
      have hlt := of_decide_eq_true hbounds.2
      omega
  | nextElement => exact absurd trivial hfinds
  | iterationFails => exact absurd trivial hfinds
  | iterationDone => exact absurd trivial hfinds
  | scriptChangesArray => exact absurd trivial hfinds

theorem run_settledOnce_iff {kind : CombinatorKind} {events : List (CombinatorEvent α)}
    {s : PromiseCombinator α} (hrun : run kind events = some s)
    : (∀ done t, done <+: events → run kind done = some t → SettledOnce t)
        ↔ (∀ done event t, done ++ [event] <+: events → run kind done = some t → FindsSettled t event) :=
  Run.foldlM_good_iff (fun _ h => h.settledOnce) (fun _ _ _ h hfinds hstep => h.step hfinds hstep)
    (fun _ _ _ h hfinds hstep => not_settledOnce_of_not_findsSettled h hfinds hstep) (Inv.new kind)
    hrun

def overwrittenElement : List (CombinatorEvent Nat) :=
  [.nextElement false false, .iterationDone false,
    .callElementFunction ⟨0, .resolve, .other 7, false, false, false⟩,
    .scriptChangesArray [.undefined],
    .callElementFunction ⟨0, .reject, .other 8, false, false, false⟩]

theorem run_settledOnce_iff_overwrittenElement
    : ∃ s, run .allSettled overwrittenElement = some s
        ∧ ((∀ done t, done <+: overwrittenElement → run .allSettled done = some t → SettledOnce t)
          ↔ (∀ done event t, done ++ [event] <+: overwrittenElement →
            run .allSettled done = some t → FindsSettled t event)) :=
  ⟨_, rfl, run_settledOnce_iff rfl⟩

theorem overwrittenElement_stored_twice
    : ∃ s, run .allSettled overwrittenElement = some s ∧ s.stores = [0, 0]
        ∧ s.remainingCount = -1 ∧ ¬ SettledOnce s := by
  refine ⟨_, rfl, rfl, rfl, ?_⟩
  intro h
  exact absurd h.remainingCount_nonneg (by decide)

end SpiderMonkey.PromiseCombinator
