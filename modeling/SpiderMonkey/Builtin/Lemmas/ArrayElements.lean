import SpiderMonkey.Builtin.Impl.ArraySetLength
import SpiderMonkey.Vm.Lemmas.ExtendElements

/-!
This module contains the own indexed properties of arrays, and what it does to them that one is deleted.
-/

namespace SpiderMonkey.Elements

open Overwrite NativeObject

variable {α Object : Type}

def denseAt (xs : List (Value α)) (i : Nat) : Option (Value α) :=
  match xs[i]? with
  | none => none
  | some .elementsHole => none
  | some v => some v

def ownProperty (xs : List (Value α)) (properties : List (Nat × Property Object)) (i : Nat)
    : Option (OwnProperty α Object) :=
  match denseAt xs i with
  | some v => some (.dense v)
  | none => (properties.lookup i).map .shape

def permanent (h : ObjectElements) : OwnProperty α Object → Bool
  | .dense _ => h.isSealed || h.isFrozen
  | .shape (.data _ _ _ configurable) => !configurable
  | .shape (.accessor _ _ _ configurable) => !configurable

def Environment.deletes (env : Environment) (i : Nat) : OwnProperty α Object → Bool
  | .dense _ => env.SuppressDeletedProperty i
  | .shape _ => env.removeProperty i && env.SuppressDeletedProperty i

def without (l : List Nat) (own : Nat → Option (OwnProperty α Object)) (i : Nat) : Option (OwnProperty α Object) :=
  if i ∈ l then none else own i

theorem without_nil (own : Nat → Option (OwnProperty α Object)) : without [] own = own := by
  funext i
  exact if_neg (List.not_mem_nil)

theorem without_singleton (i j : Nat) (own : Nat → Option (OwnProperty α Object))
    : without [i] own j = if j = i then none else own j :=
  if_congr List.mem_singleton rfl rfl

theorem without_cons (i : Nat) (l : List Nat) (own : Nat → Option (OwnProperty α Object))
    : without l (without [i] own) = without (i :: l) own := by
  funext k
  unfold without
  simp only [List.mem_cons, List.not_mem_nil, or_false]
  split_ifs <;> simp_all

structure Filled (obj : NativeObject α) (before : List (HeapSlot α)) (h : ObjectElements) (body : List (HeapSlot α))
    (xs : List (Value α)) : Prop where
  good : obj.Good before h body
  values : body.take h.initializedLength = xs.map .value
  storage : obj.storage ≠ .emptyElements

structure Apart (xs : List (Value α)) (properties : List (Nat × Property Object)) : Prop where
  nodup : (properties.map Prod.fst).Nodup
  denseAt : ∀ i ∈ properties.map Prod.fst, denseAt xs i = none

section

variable {obj : NativeObject α} {before body : List (HeapSlot α)} {h : ObjectElements} {xs : List (Value α)}
  {properties : List (Nat × Property Object)}

theorem Filled.length (hf : Filled obj before h body xs) : h.initializedLength = xs.length :=
  initializedLength_eq hf.values (Nat.le_trans hf.good.initializedLength_le hf.good.capacity_le)

theorem denseAt_of_le {i : Nat} (hi : xs.length ≤ i) : denseAt xs i = none := by
  unfold denseAt
  rw [List.getElem?_eq_none hi]

theorem denseAt_set {i : Nat} (j : Nat)
    : denseAt (xs.set i .elementsHole) j = if j = i then none else denseAt xs j := by
  unfold denseAt
  rw [List.getElem?_set]
  by_cases hij : i = j
  . subst hij
    rw [if_pos rfl, if_pos rfl]
    split <;> first | rfl | simp_all
  . rw [if_neg hij, if_neg (Ne.symm hij)]

theorem denseAt_take (i : Nat) : denseAt (xs.take n) i = if i < n then denseAt xs i else none := by
  unfold denseAt
  by_cases hi : i < n
  . rw [List.getElem?_take, if_pos hi, if_pos hi]
  . rw [List.getElem?_take, if_neg hi, if_neg hi]

theorem ownProperty_take (n i : Nat)
    : ownProperty (xs.take n) properties i
      = if i < n then ownProperty xs properties i else (properties.lookup i).map .shape := by
  unfold ownProperty
  rw [denseAt_take]
  by_cases hi : i < n
  . rw [if_pos hi, if_pos hi]
  . rw [if_neg hi, if_neg hi]

theorem containsDenseElement_place (hf : Filled obj before h body xs) (i : Nat)
    : (obj.place before h body).containsDenseElement i = some (denseAt xs i).isSome := by
  have hlength := hf.length
  unfold containsDenseElement
  rw [getElementsHeader_place, some_bind]
  split
  next hi =>
    have hsome : xs[i]? = some _ := List.getElem?_eq_getElem (by omega)
    have hget : (obj.place before h body).getDenseElement i = some xs[i] :=
      (getDenseElement_place hf.values hi).trans hsome
    unfold denseAt
    rw [hget, hsome, some_bind]
    cases xs[i] <;> rfl
  next hi => rw [denseAt_of_le (by omega)]; rfl

theorem NativeLookupOwnProperty_place (hf : Filled obj before h body xs) (lengthReadonly : Bool) (i : Nat)
    : (ArrayObject.mk (obj.place before h body) properties lengthReadonly).NativeLookupOwnProperty i
      = some (ownProperty xs properties i) := by
  unfold ArrayObject.NativeLookupOwnProperty ownProperty
  rw [containsDenseElement_place hf, some_bind]
  rcases hdense : denseAt xs i with _ | v
  . rfl
  have hi : i < xs.length := by
    by_contra hi
    rw [denseAt_of_le (Nat.not_lt.mp hi)] at hdense
    cases hdense
  have hsome : xs[i]? = some xs[i] := List.getElem?_eq_getElem hi
  have hv : xs[i] = v := by
    unfold denseAt at hdense
    rw [hsome] at hdense
    split at hdense
    next => cases hdense
    next => cases hdense
    next heq =>
      cases hdense
      exact Option.some.inj heq
  have hget : (obj.place before h body).getDenseElement i = some v := by
    rw [getDenseElement_place hf.values (hf.length ▸ hi), hsome, hv]
  rw [Option.isSome_some, if_pos rfl, hget]
  rfl

theorem GetPropertyAttributes_place (lengthReadonly : Bool) (prop : OwnProperty α Object)
    : ∃ attrs, (ArrayObject.mk (obj.place before h body) properties lengthReadonly).GetPropertyAttributes prop
        = some attrs ∧ attrs.permanent = permanent h prop := by
  cases prop with
  | dense v =>
    refine ⟨h.elementAttributes, ?_, ?_⟩
    . unfold ArrayObject.GetPropertyAttributes
      rw [getElementsHeader_place]
      rfl
    . unfold ObjectElements.elementAttributes permanent
      cases h.isFrozen <;> cases h.isSealed <;> rfl
  | shape p =>
    cases p with
    | data value writable enumerable configurable => exact ⟨_, rfl, rfl⟩
    | accessor getter setter enumerable configurable => exact ⟨_, rfl, rfl⟩

theorem lookup_cons_eq (k j : Nat) (p : Property Object)
    : ((k, p) :: properties).lookup j = if j = k then some p else properties.lookup j := by
  rw [List.lookup_cons]
  by_cases hj : j = k
  . rw [if_pos hj, beq_iff_eq.mpr hj]
  . rw [if_neg hj, beq_eq_false_iff_ne.mpr hj]

theorem lookup_filter (i j : Nat)
    : (properties.filter (·.1 ≠ i)).lookup j = if j = i then none else properties.lookup j := by
  induction properties with
  | nil => split <;> rfl
  | cons p properties ih =>
    obtain ⟨k, p⟩ := p
    rw [List.filter_cons, lookup_cons_eq]
    by_cases hk : k = i
    . rw [if_neg (by simp [hk]), ih]
      subst hk
      split <;> rfl
    . rw [if_pos (by simp [hk]), lookup_cons_eq, ih]
      split_ifs <;> first | rfl | omega

theorem Apart.set (ha : Apart xs properties) (i : Nat) : Apart (xs.set i .elementsHole) properties where
  nodup := ha.nodup
  denseAt := by
    intro j hj
    rw [denseAt_set, ha.denseAt j hj]
    split <;> rfl

theorem Apart.filter (ha : Apart xs properties) (i : Nat) : Apart xs (properties.filter (·.1 ≠ i)) := by
  have hsublist : ((properties.filter (·.1 ≠ i)).map Prod.fst).Sublist (properties.map Prod.fst) :=
    (List.filter_sublist).map _
  exact ⟨ha.nodup.sublist hsublist, fun j hj => ha.denseAt j (hsublist.subset hj)⟩

theorem lookup_eq_none_of_not_mem {i : Nat} (hi : i ∉ properties.map Prod.fst) : properties.lookup i = none := by
  rw [List.lookup_eq_none_iff]
  intro p hp
  simp only [bne_iff_ne, ne_eq]
  rintro rfl
  exact hi (List.mem_map_of_mem hp)

theorem maybeCopyElementsForWrite_of_own (alloc : Allocator) (hcow : h.isCopyOnWrite = false)
    : (obj.place before h body).maybeCopyElementsForWrite alloc = some (true, obj.place before h body) := by
  unfold maybeCopyElementsForWrite
  rw [getElementsHeader_place, some_bind, hcow]
  rfl

theorem Filled.setDenseElement (hf : Filled obj before h body xs) (hcow : h.isCopyOnWrite = false) {i : Nat}
    (hi : i < xs.length) (v : Value α)
    : ∃ body', (obj.place before h body).setDenseElement i v = some (obj.place before h body')
      ∧ Filled obj before h body' (xs.set i v) := by
  have hle := Nat.le_trans hf.good.initializedLength_le hf.good.capacity_le
  have hlength := hf.length
  refine ⟨body.set i (.value v), ?_, hf.good.of_length List.length_set, ?_, hf.storage⟩
  . rw [setDenseElement_place hf.storage hcow (by omega) hle, overwrite_singleton (by omega)]
  . rw [List.take_set, hf.values, List.map_set]

variable {env : Environment}

def Removable (env : Environment) (h : ObjectElements) (own : Nat → Option (OwnProperty α Object)) (i : Nat) : Prop :=
  ∀ p, own i = some p → permanent h p = false ∧ env.deletes i p = true

theorem ownProperty_set (ha : Apart xs properties) {i : Nat} (hv : denseAt xs i = some v)
    : ownProperty (xs.set i .elementsHole) properties = without [i] (ownProperty xs properties) := by
  funext j
  rw [without_singleton]
  unfold ownProperty
  rw [denseAt_set]
  by_cases hj : j = i
  . subst hj
    have hnot : j ∉ properties.map Prod.fst := by
      intro hmem
      rw [ha.denseAt j hmem] at hv
      cases hv
    rw [if_pos rfl, if_pos rfl, lookup_eq_none_of_not_mem hnot]
    rfl
  . rw [if_neg hj, if_neg hj]

theorem ownProperty_filter {i : Nat} (hi : denseAt xs i = none)
    : ownProperty xs (properties.filter (·.1 ≠ i)) = without [i] (ownProperty xs properties) := by
  funext j
  rw [without_singleton]
  unfold ownProperty
  rw [lookup_filter]
  by_cases hj : j = i
  . subst hj
    rw [hi, if_pos rfl, if_pos rfl]
    rfl
  . rw [if_neg hj, if_neg hj]

variable (env) in
theorem DeleteElement_place (hf : Filled obj before h body xs) (ha : Apart xs properties)
    (hcow : h.isCopyOnWrite = false) (lengthReadonly : Bool) (i : Nat)
    : ∃ result body' xs' properties', (ArrayObject.mk (obj.place before h body) properties lengthReadonly).DeleteElement
          env i = some (result, ⟨obj.place before h body', properties', lengthReadonly⟩)
      ∧ Filled obj before h body' xs' ∧ Apart xs' properties'
      ∧ match result with
        | .succeed => Removable env h (ownProperty xs properties) i
          ∧ ownProperty xs' properties' = without [i] (ownProperty xs properties)
        | .failCantDelete => ownProperty xs' properties' = ownProperty xs properties
          ∧ ∃ p, ownProperty xs properties i = some p ∧ permanent h p = true
        | .exception => ∃ p, ownProperty xs properties i = some p ∧ permanent h p = false ∧ env.deletes i p = false := by
  unfold ArrayObject.DeleteElement
  rw [NativeLookupOwnProperty_place hf, some_bind]
  rcases hown : ownProperty xs properties i with _ | p
  . refine ⟨.succeed, body, xs, properties, rfl, hf, ha, ?_, ?_⟩
    . intro p hp
      rw [hown] at hp
      cases hp
    funext j
    rw [without_singleton]
    split
    next hj => rw [hj, hown]
    next => rfl
  have hattrs : ∃ attrs, (ArrayObject.mk (obj.place before h body) properties lengthReadonly).GetPropertyAttributes p
      = some attrs ∧ attrs.permanent = permanent h p := GetPropertyAttributes_place lengthReadonly p
  obtain ⟨attrs, hattrs, hpermanent⟩ := hattrs
  dsimp only
  rw [hattrs, some_bind, hpermanent]
  split
  next hperm =>
    exact ⟨.failCantDelete, body, xs, properties, rfl, hf, ha, rfl, p, rfl, hperm⟩
  next hperm =>
    rw [Bool.not_eq_true] at hperm
    have hremovable (hdeletes : env.deletes i p = true) : Removable env h (ownProperty xs properties) i := by
      intro p' hp'
      rw [hown] at hp'
      cases hp'
      exact ⟨hperm, hdeletes⟩
    cases p with
    | dense v =>
      have hdense : denseAt xs i = some v := by
        unfold ownProperty at hown
        rcases hdense : denseAt xs i with _ | v'
        . rw [hdense] at hown
          cases hlookup : properties.lookup i <;> rw [hlookup] at hown <;> cases hown
        rw [hdense] at hown
        cases hown
        rfl
      have hi : i < xs.length := by
        by_contra hi
        rw [denseAt_of_le (Nat.not_lt.mp hi)] at hdense
        cases hdense
      obtain ⟨body', hset, hf'⟩ := hf.setDenseElement hcow hi .elementsHole
      have hown' := ownProperty_set ha hdense
      dsimp only
      rw [maybeCopyElementsForWrite_of_own env.copyAlloc hcow, some_bind, if_neg (not_not.mpr rfl), hset]
      cases hsuppress : env.SuppressDeletedProperty i with
      | true =>
        exact ⟨.succeed, body', _, properties, rfl, hf', ha.set i, hremovable hsuppress, hown'⟩
      | false =>
        exact ⟨.exception, body', _, properties, rfl, hf', ha.set i, _, rfl, hperm, hsuppress⟩
    | shape p =>
      have hdense : denseAt xs i = none := by
        unfold ownProperty at hown
        rcases hdense : denseAt xs i with _ | v'
        . rfl
        . rw [hdense] at hown
          cases hown
      have hown' : ownProperty xs (properties.filter (·.1 ≠ i)) = _ := ownProperty_filter hdense
      dsimp only
      split
      next hremove =>
        rw [Bool.not_eq_true] at hremove
        refine ⟨.exception, body, xs, properties, rfl, hf, ha, _, rfl, hperm, ?_⟩
        exact Bool.and_eq_false_iff.mpr (.inl hremove)
      next hremove =>
        have hremove := not_not.mp hremove
        cases hsuppress : env.SuppressDeletedProperty i with
        | true =>
          exact ⟨.succeed, body, xs, _, rfl, hf, ha.filter i,
            hremovable (Bool.and_eq_true_iff.mpr ⟨hremove, hsuppress⟩), hown'⟩
        | false =>
          exact ⟨.exception, body, xs, _, rfl, hf, ha.filter i, _, rfl, hperm,
            Bool.and_eq_false_iff.mpr (.inr hsuppress)⟩

end

end SpiderMonkey.Elements
