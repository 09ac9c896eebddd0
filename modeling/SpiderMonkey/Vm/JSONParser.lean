import SpiderMonkey.Vm.Lemmas.JSONAdvance

/-!
This module contains that the parser ends, without reading outside the text, and succeeds with exactly the value that
the text denotes: its vectors hold what the open arrays and objects have collected, and every step keeps what the rest
of the text may be.
-/

open List

namespace SpiderMonkey.JSON

variable {D : Type}

/- The vectors of the open arrays and objects. -/

def pairs (members : List (List CharT × Value D)) (key : Option (List CharT)) : List (IdValuePair D) :=
  members.map (fun m => { id := m.1, value := m.2 }) ++ key.toList.map (fun k => { id := k })

def Holds (elementVectors : List (List (Value D))) (propertyVectors : List (List (IdValuePair D)))
    (entry : StackEntry) : Frame D → Prop
  | .array es => entry.state = .FinishArrayElement ∧ elementVectors[entry.vector]? = some es
  | .object ms key => entry.state = .FinishObjectMember ∧ propertyVectors[entry.vector]? = some (pairs ms key)

def elementPtrs (stack : List StackEntry) : List Nat := stack.filterMap StackEntry.elements
def propertyPtrs (stack : List StackEntry) : List Nat := stack.filterMap StackEntry.properties

structure Owned (used free : List Nat) (size : Nat) : Prop where
  nodup : (used ++ free).Nodup
  lt : ∀ v ∈ used ++ free, v < size

structure Represents (parser : JSONParser D) (frames : List (Frame D)) : Prop where
  stack : List.Forall₂ (Holds parser.elementVectors parser.propertyVectors) parser.stack frames
  elements : Owned (elementPtrs parser.stack) parser.freeElements parser.elementVectors.length
  properties : Owned (propertyPtrs parser.stack) parser.freeProperties parser.propertyVectors.length

section Vectors

variable {α : Type} {used free : List Nat} {vectors : List (List α)} {v : Nat}

theorem takeVector_spec (h : Owned used free vectors.length)
    : ∃ free' vectors' v, takeVector free vectors = some (free', vectors', v) ∧
        Owned (v :: used) free' vectors'.length ∧ vectors'[v]? = some [] ∧
        ∀ u ∈ used, vectors'[u]? = vectors[u]? := by
  cases free with
  | nil =>
    refine ⟨[], vectors ++ [[]], vectors.length, rfl, ⟨?_, ?_⟩, ?_, ?_⟩
    . have hnodup := h.nodup
      rw [append_nil] at hnodup ⊢
      refine nodup_cons.mpr ⟨?_, hnodup⟩
      intro hmem
      exact absurd (h.lt _ (mem_append_left _ hmem)) (Nat.lt_irrefl _)
    . intro u hu
      rw [append_nil] at hu
      rw [length_append, length_singleton]
      rcases mem_cons.mp hu with rfl | hu
      . omega
      . have := h.lt u (mem_append_left _ hu)
        omega
    . rw [List.getElem?_append_right (Nat.le_refl _), Nat.sub_self]
      rfl
    . intro u hu
      exact List.getElem?_append_left (h.lt u (mem_append_left _ hu))
  | cons v rest =>
    have hlt : v < vectors.length := h.lt v (mem_append_right _ mem_cons_self)
    have hperm : (used ++ v :: rest).Perm (v :: used ++ rest) := perm_middle
    refine ⟨rest, vectors.set v [], v, by rw [takeVector, if_pos hlt], ⟨?_, ?_⟩, ?_, ?_⟩
    . exact hperm.nodup_iff.mp h.nodup
    . intro u hu
      rw [length_set]
      exact h.lt u (hperm.mem_iff.mpr hu)
    . rw [List.getElem?_set_self hlt]
    . intro u hu
      rw [List.getElem?_set_ne]
      exact fun heq => (nodup_append.mp h.nodup).2.2 u hu v mem_cons_self heq.symm

theorem Owned.release (h : Owned (v :: used) free vectors.length) : Owned used (v :: free) vectors.length := by
  have hperm : (v :: used ++ free).Perm (used ++ v :: free) := perm_middle.symm
  exact ⟨hperm.nodup_iff.mp h.nodup, fun u hu => h.lt u (hperm.mem_iff.mpr hu)⟩

theorem Owned.set (h : Owned used free vectors.length) {xs : List α} : Owned used free (vectors.set v xs).length := by
  rw [length_set]
  exact h

end Vectors

variable {stack : List StackEntry}

theorem holds_congr {es es' : List (List (Value D))} {ps ps' : List (List (IdValuePair D))}
    {frames : List (Frame D)} (h : List.Forall₂ (Holds es ps) stack frames)
    (hes : ∀ e ∈ elementPtrs stack, es'[e]? = es[e]?) (hps : ∀ p ∈ propertyPtrs stack, ps'[p]? = ps[p]?)
    : List.Forall₂ (Holds es' ps') stack frames := by
  induction h with
  | nil => exact .nil
  | @cons entry frame stack frames hentry hrest ih =>
    refine .cons ?_ (ih ?_ ?_)
    . cases frame with
      | array vs =>
        obtain ⟨hstate, hvec⟩ := hentry
        refine ⟨hstate, ?_⟩
        rw [hes entry.vector, hvec]
        rw [elementPtrs, filterMap_cons, StackEntry.elements, if_pos hstate]
        exact mem_cons_self
      | object ms key =>
        obtain ⟨hstate, hvec⟩ := hentry
        refine ⟨hstate, ?_⟩
        rw [hps entry.vector, hvec]
        rw [propertyPtrs, filterMap_cons, StackEntry.properties, if_pos hstate]
        exact mem_cons_self
    . intro e he
      apply hes
      rw [elementPtrs, filterMap_cons]
      split
      . exact he
      . exact mem_cons_of_mem _ he
    . intro p hp
      apply hps
      rw [propertyPtrs, filterMap_cons]
      split
      . exact hp
      . exact mem_cons_of_mem _ hp

variable {vs : List (Value D)} {ms : List (List CharT × Value D)}

section Operations

variable {parser : JSONParser D} {frames : List (Frame D)}

theorem Represents.withCurrent (h : Represents parser frames) (current : CharPtr)
    : Represents { parser with current := current } frames :=
  ⟨h.stack, h.elements, h.properties⟩

theorem Represents.array_top (h : Represents parser (.array vs :: frames))
    : ∃ v stack, parser.stack = .ofElements v :: stack ∧ parser.elementVectors[v]? = some vs ∧
        List.Forall₂ (Holds parser.elementVectors parser.propertyVectors) stack frames := by
  cases hstack : parser.stack with
  | nil =>
    have := h.stack
    rw [hstack] at this
    cases this
  | cons entry stack =>
    have hall := h.stack
    rw [hstack] at hall
    obtain ⟨⟨hstate, hvec⟩, hrest⟩ := forall₂_cons.mp hall
    obtain ⟨state, v⟩ := entry
    cases hstate
    exact ⟨v, stack, rfl, hvec, hrest⟩

theorem Represents.object_top {key : Option (List CharT)} (h : Represents parser (.object ms key :: frames))
    : ∃ v stack, parser.stack = .ofProperties v :: stack ∧ parser.propertyVectors[v]? = some (pairs ms key) ∧
        List.Forall₂ (Holds parser.elementVectors parser.propertyVectors) stack frames := by
  cases hstack : parser.stack with
  | nil =>
    have := h.stack
    rw [hstack] at this
    cases this
  | cons entry stack =>
    have hall := h.stack
    rw [hstack] at hall
    obtain ⟨⟨hstate, hvec⟩, hrest⟩ := forall₂_cons.mp hall
    obtain ⟨state, v⟩ := entry
    cases hstate
    exact ⟨v, stack, rfl, hvec, hrest⟩

theorem newElements_spec (h : Represents parser frames)
    : ∃ parser' v, parser.newElements = some (parser', v) ∧ parser'.current = parser.current ∧
        Represents { parser' with stack := .ofElements v :: parser'.stack } (.array [] :: frames) := by
  obtain ⟨free, vectors, v, htake, howned, hvec, hsame⟩ := takeVector_spec h.elements
  refine ⟨{ parser with freeElements := free, elementVectors := vectors }, v, ?_, rfl, ?_⟩
  . rw [JSONParser.newElements, htake]
    rfl
  refine ⟨.cons ⟨rfl, hvec⟩ (holds_congr h.stack hsame fun p _ => rfl), ?_, ?_⟩
  . exact howned
  . exact h.properties

theorem newProperties_spec (h : Represents parser frames)
    : ∃ parser' v, parser.newProperties = some (parser', v) ∧ parser'.current = parser.current ∧
        Represents { parser' with stack := .ofProperties v :: parser'.stack } (.object [] none :: frames) := by
  obtain ⟨free, vectors, v, htake, howned, hvec, hsame⟩ := takeVector_spec h.properties
  refine ⟨{ parser with freeProperties := free, propertyVectors := vectors }, v, ?_, rfl, ?_⟩
  . rw [JSONParser.newProperties, htake]
    rfl
  refine ⟨.cons ⟨rfl, hvec⟩ (holds_congr h.stack (fun e _ => rfl) hsame), ?_, ?_⟩
  . exact h.elements
  . exact howned

theorem Represents.setElements {v : Nat} {vs' : List (Value D)}
    (h : Represents parser (.array vs :: frames)) (hstack : parser.stack = .ofElements v :: stack)
    : Represents { parser with elementVectors := parser.elementVectors.set v vs' } (.array vs' :: frames) := by
  have hall := h.stack
  have howned := h.elements
  rw [hstack] at hall howned
  obtain ⟨⟨_, hvec⟩, hrest⟩ := forall₂_cons.mp hall
  have hlt : v < parser.elementVectors.length := (List.getElem?_eq_some_iff.mp hvec).1
  refine ⟨?_, h.elements.set, h.properties⟩
  rw [hstack]
  refine .cons ⟨rfl, List.getElem?_set_self hlt⟩ (holds_congr hrest ?_ fun p _ => rfl)
  intro e he
  apply List.getElem?_set_ne
  rintro rfl
  exact (nodup_cons.mp (nodup_append.mp howned.nodup).1).1 he

theorem Represents.setProperties {v : Nat} {ms' : List (List CharT × Value D)}
    {key key' : Option (List CharT)} (h : Represents parser (.object ms key :: frames))
    (hstack : parser.stack = .ofProperties v :: stack)
    : Represents { parser with propertyVectors := parser.propertyVectors.set v (pairs ms' key') }
        (.object ms' key' :: frames) := by
  have hall := h.stack
  have howned := h.properties
  rw [hstack] at hall howned
  obtain ⟨⟨_, hvec⟩, hrest⟩ := forall₂_cons.mp hall
  have hlt : v < parser.propertyVectors.length := (List.getElem?_eq_some_iff.mp hvec).1
  refine ⟨?_, h.elements, h.properties.set⟩
  rw [hstack]
  refine .cons ⟨rfl, List.getElem?_set_self hlt⟩ (holds_congr hrest (fun e _ => rfl) ?_)
  intro p hp
  apply List.getElem?_set_ne
  rintro rfl
  exact (nodup_cons.mp (nodup_append.mp howned.nodup).1).1 hp

theorem appendElement_spec (h : Represents parser (.array vs :: frames)) (value : Value D)
    : ∃ parser' v stack, parser.appendElement value = some (parser', v) ∧ parser'.current = parser.current ∧
        parser'.stack = .ofElements v :: stack ∧ Represents parser' (.array (vs ++ [value]) :: frames) := by
  obtain ⟨v, stack, hstack, hvec, _⟩ := h.array_top
  refine ⟨{ parser with elementVectors := parser.elementVectors.set v (vs ++ [value]) }, v, stack, ?_, rfl, hstack,
    h.setElements hstack⟩
  rw [JSONParser.appendElement, hstack, List.head?_cons, some_bind]
  simp only [StackEntry.elements, StackEntry.ofElements, if_true, some_bind, hvec]

theorem emplaceBack_spec (h : Represents parser (.object ms none :: frames)) (id : List CharT)
    : ∃ parser', parser.emplaceBack id = some parser' ∧ parser'.current = parser.current ∧
        Represents parser' (.object ms (some id) :: frames) := by
  obtain ⟨v, stack, hstack, hvec, _⟩ := h.object_top
  refine ⟨{ parser with propertyVectors := parser.propertyVectors.set v (pairs ms (some id)) }, ?_, rfl,
    h.setProperties hstack⟩
  rw [JSONParser.emplaceBack, hstack, List.head?_cons, some_bind]
  simp only [StackEntry.properties, StackEntry.ofProperties, if_true, some_bind, hvec,
    pairs, Option.toList_none, map_nil, append_nil, Option.toList_some, map_cons]

theorem setBackValue_spec {key : List CharT}
    (h : Represents parser (.object ms (some key) :: frames)) (value : Value D)
    : ∃ parser' v stack, parser.setBackValue value = some (parser', v) ∧ parser'.current = parser.current ∧
        parser'.stack = .ofProperties v :: stack ∧ Represents parser' (.object (ms ++ [(key, value)]) none :: frames) := by
  obtain ⟨v, stack, hstack, hvec, _⟩ := h.object_top
  refine ⟨{ parser with
    propertyVectors := parser.propertyVectors.set v (pairs (ms ++ [(key, value)]) none) }, v, stack, ?_, rfl, hstack,
    h.setProperties hstack⟩
  rw [JSONParser.setBackValue, hstack, List.head?_cons, some_bind]
  simp only [StackEntry.properties, StackEntry.ofProperties, if_true, some_bind, hvec,
    pairs, Option.toList_some, map_cons, map_nil, List.getLast?_append, List.getLast?_singleton,
    Option.some_or, dropLast_concat, Option.toList_none, append_nil, map_append]

theorem finishArray_spec {v : Nat}
    (h : Represents parser (.array vs :: frames)) (hstack : parser.stack = .ofElements v :: stack)
    : ∃ parser', parser.finishArray v = some (parser', .Array vs) ∧ parser'.current = parser.current ∧
        Represents parser' frames := by
  have hall := h.stack
  have helements := h.elements
  have hproperties := h.properties
  rw [hstack] at hall helements hproperties
  obtain ⟨⟨_, hvec⟩, hrest⟩ := forall₂_cons.mp hall
  have hvec : parser.elementVectors[v]? = some vs := hvec
  refine ⟨{ parser with freeElements := v :: parser.freeElements, stack := stack }, ?_, rfl,
    ⟨hrest, helements.release, hproperties⟩⟩
  rw [JSONParser.finishArray, hstack, List.head?_cons, some_bind]
  simp only [StackEntry.elements, StackEntry.ofElements, if_true, some_bind, hvec, tail_cons]

theorem finishObject_spec {v : Nat}
    (h : Represents parser (.object ms none :: frames)) (hstack : parser.stack = .ofProperties v :: stack)
    : ∃ parser', parser.finishObject v = some (parser', .Object ms) ∧ parser'.current = parser.current ∧
        Represents parser' frames := by
  have hall := h.stack
  have helements := h.elements
  have hproperties := h.properties
  rw [hstack] at hall helements hproperties
  obtain ⟨⟨_, hvec⟩, hrest⟩ := forall₂_cons.mp hall
  have hvec : parser.propertyVectors[v]? = some (pairs ms none) := hvec
  refine ⟨{ parser with freeProperties := v :: parser.freeProperties, stack := stack }, ?_, rfl,
    ⟨hrest, helements, hproperties.release⟩⟩
  rw [JSONParser.finishObject, hstack, List.head?_cons, some_bind]
  have hmap : (pairs ms none).map (fun x => (x.id, x.value)) = ms := by
    rw [pairs, Option.toList_none, map_nil, append_nil, map_map]
    exact map_id ms
  simp only [StackEntry.properties, StackEntry.ofProperties, if_true, some_bind, hvec, tail_cons, hmap]

end Operations

/- The steps. -/

def Frame.Waiting : Frame D → Prop
  | .array _ => True
  | .object _ key => key ≠ none

def Token.IsError (t : Token D) : Prop := ∃ report, t = .Error report

def PointInv (frames : List (Frame D)) (current : CharPtr) : Point D → Prop
  | .FinishObjectMember _ => ∃ ms key fs, frames = .object ms (some key) :: fs ∧ ∀ f ∈ fs, f.Waiting
  | .FinishArrayElement _ => ∃ vs fs, frames = .array vs :: fs ∧ ∀ f ∈ fs, f.Waiting
  | .JSONMember _ => ∃ ms fs, frames = .object ms none :: fs ∧ ∀ f ∈ fs, f.Waiting
  | .JSONValueSwitch t => (∀ f ∈ frames, f.Waiting) ∧ (t.IsError ∨ current.before ≠ [])
  | .JSONValue => ∀ f ∈ frames, f.Waiting
  | .afterSwitch _ => ∀ f ∈ frames, f.Waiting

structure Inv (c : JSONParser D × Point D) (frames : List (Frame D)) : Prop where
  represents : Represents c.1 frames
  point : PointInv frames c.1.current c.2

-- Each step reads a unit of the text or comes closer to one that does.
def measure (c : JSONParser D × Point D) : Nat :=
  match c.2 with
  | .JSONValueSwitch (.Error _) => 0
  | .JSONMember (.Error _) => 0
  | .JSONValue => 4 * c.1.current.after.length + 4
  | .JSONValueSwitch _ => 4 * c.1.current.after.length + 3
  | .JSONMember _ => 4 * c.1.current.after.length + 3
  | .afterSwitch _ => 4 * c.1.current.after.length + 2
  | .FinishObjectMember _ => 4 * c.1.current.after.length + 1
  | .FinishArrayElement _ => 4 * c.1.current.after.length + 1

def Accepts (nearest : Nearest D) (c : JSONParser D × Point D) (frames : List (Frame D)) (result : Value D) : Prop :=
  match c.2 with
  | .FinishObjectMember v => Rest nearest frames v c.1.current.after result
  | .FinishArrayElement v => Rest nearest frames v c.1.current.after result
  | .afterSwitch v => Rest nearest frames v c.1.current.after result
  | .JSONValue => Start nearest frames c.1.current.after result
  | .JSONValueSwitch t => SwitchAccepts nearest frames result t c.1.current.after
  | .JSONMember t =>
    match frames with
    | .object ms none :: fs => MemberAccepts nearest fs ms result t c.1.current.after
    | _ => False

def Returned (r : Return D) : Prop :=
  (∃ v, r = ⟨true, v, none⟩) ∨ ∃ report, r = ⟨false, .Undefined, some report⟩

def Succeeds (r : Return D) (v : Value D) : Prop := r = ⟨true, v, none⟩

def Keeps (nearest : Nearest D) (accepts : Value D → Prop) (bound : Nat) (next : Option (Next D)) : Prop :=
  (∃ c frames, next = some (.inl c) ∧ Inv c frames ∧ measure c < bound ∧ ∀ v, accepts v ↔ Accepts nearest c frames v) ∨
    ∃ r, next = some (.inr r) ∧ Returned r ∧ ∀ v, accepts v ↔ Succeeds r v

section Steps

variable {nearest : Nearest D} {parser : JSONParser D} {frames : List (Frame D)}

variable {accepts : Value D → Prop}

theorem keeps_error {bound : Nat} {report : Report} (h : ∀ v, ¬accepts v)
    : Keeps nearest accepts bound (some (.inr (errorReturn .JSONParse report))) := by
  refine .inr ⟨_, rfl, .inr ⟨report, rfl⟩, ?_⟩
  intro v
  refine iff_of_false (h v) ?_
  rintro ⟨⟩

theorem keeps_errorStep {bound : Nat} {current : CharPtr} {msg : String}
    (h : ∀ v, ¬accepts v) : Keeps nearest accepts bound (errorStep .JSONParse current msg) :=
  keeps_error h

theorem follow_of_number {accepts : Token D → List CharT → Prop} (h : ∀ d r, ¬accepts (.Number d) r)
    : ∀ t r, accepts t r → t.Follow r := by
  rintro t r hacc d rfl
  exact absurd hacc (h d r)

theorem past_lt {p q : CharPtr} {a w : List CharT} {t : Token D} (hlex : Lexeme nearest t w) (hp : p.Past (a ++ w) q)
    : q.after.length < p.after.length ∧ q.before ≠ [] := by
  have hw := length_pos_of_ne_nil hlex.ne_nil
  have hlen := hp.length
  rw [length_append] at hlen
  refine ⟨by omega, ?_⟩
  rw [hp.before]
  have : (a ++ w).reverse ≠ [] := by
    rw [ne_eq, reverse_eq_nil_iff]
    exact append_ne_nil_of_right_ne_nil a hlex.ne_nil
  exact append_ne_nil_of_left_ne_nil this _

theorem stepFinishArrayElement_keeps {v : Value D} (h : Represents parser (.array vs :: frames))
    (hframes : ∀ f ∈ frames, f.Waiting)
    : Keeps nearest (Rest nearest (.array vs :: frames) v parser.current.after) (4 * parser.current.after.length + 1)
        (stepFinishArrayElement .JSONParse parser v) := by
  obtain ⟨parser', e, stack, hrun, hcurrent, hstack, hrep⟩ := appendElement_spec h v
  obtain ⟨t, q, hread, htoken, hexact⟩ := @advanceAfterArrayElement_exact D nearest parser'.current
  have hiff := fun result => rest_array_iff.trans
    (hexact (AfterElement nearest frames vs v result) (fun _ _ => id) (follow_of_number fun _ _ => id))
  rw [hcurrent] at hiff
  rw [stepFinishArrayElement, hrun]
  simp only [some_bind, hread]
  rcases htoken with ⟨report, rfl⟩ | ⟨ht, a, w, _, hlex, hpast⟩
  . exact keeps_error fun result => mt (hiff result).mp id
  obtain ⟨hlt, _⟩ := past_lt hlex hpast
  rw [hcurrent] at hlt
  rcases ht with rfl | rfl | ht
  . refine .inl ⟨_, _, rfl, ⟨hrep.withCurrent q, ?_⟩, ?_, hiff⟩
    . intro f hf
      rcases mem_cons.mp hf with rfl | hf
      . trivial
      . exact hframes f hf
    . rw [measure]
      dsimp only
      omega
  . obtain ⟨parser'', hfinish, hcurrent', hrep'⟩ := finishArray_spec (hrep.withCurrent q) hstack
    simp only [hfinish, some_bind]
    refine .inl ⟨_, frames, rfl, ⟨hrep', hframes⟩, ?_, ?_⟩
    . rw [measure]
      dsimp only
      rw [hcurrent']
      dsimp only
      omega
    intro result
    rw [hiff, Accepts]
    dsimp only
    rw [hcurrent']
    rfl
  . exact ht.elim

theorem waiting_cons {f : Frame D} (hf : f.Waiting) (hframes : ∀ f ∈ frames, f.Waiting)
    : ∀ f' ∈ f :: frames, f'.Waiting := by
  intro f' hf'
  rcases mem_cons.mp hf' with rfl | hf'
  . exact hf
  . exact hframes f' hf'

theorem keeps_member {bound : Nat} {t : Token D}
    {q : CharPtr} (h : Represents parser (.object ms none :: frames)) (hframes : ∀ f ∈ frames, f.Waiting)
    (hlt : t.IsError ∨ 4 * q.after.length + 3 < bound) (hpos : 0 < bound)
    (hiff : ∀ v, accepts v ↔ MemberAccepts nearest frames ms v t q.after)
    : Keeps nearest accepts bound (goto { parser with current := q } (.JSONMember t)) := by
  refine .inl ⟨_, _, rfl, ⟨h.withCurrent q, ms, frames, rfl, hframes⟩, ?_, hiff⟩
  rcases hlt with ⟨report, rfl⟩ | hlt
  . exact hpos
  rw [measure]
  dsimp only
  cases t <;> simp only <;> omega

theorem stepFinishObjectMember_keeps {key : List CharT} {v : Value D}
    (h : Represents parser (.object ms (some key) :: frames)) (hframes : ∀ f ∈ frames, f.Waiting)
    : Keeps nearest (Rest nearest (.object ms (some key) :: frames) v parser.current.after)
        (4 * parser.current.after.length + 1) (stepFinishObjectMember .JSONParse parser v) := by
  obtain ⟨parser', e, stack, hrun, hcurrent, hstack, hrep⟩ := setBackValue_spec h v
  obtain ⟨t, q, hread, htoken, hexact⟩ := @advanceAfterProperty_exact D nearest parser'.current
  have hiff := fun result => rest_object_iff.trans
    (hexact (AfterProperty nearest frames (ms ++ [(key, v)]) result) (fun _ _ => id) (follow_of_number fun _ _ => id))
  rw [hcurrent] at hiff
  rw [stepFinishObjectMember, hrun]
  simp only [some_bind, hread]
  rcases htoken with ⟨report, rfl⟩ | ⟨ht, a, w, _, hlex, hpast⟩
  . exact keeps_error fun result => mt (hiff result).mp id
  obtain ⟨hlt, _⟩ := past_lt hlex hpast
  rw [hcurrent] at hlt
  rcases ht with rfl | rfl | ht
  . obtain ⟨t', q', hread', htoken', hexact'⟩ := @advancePropertyName_exact D nearest q
    simp only [hread', some_bind]
    refine keeps_member hrep hframes ?_ (Nat.succ_pos _) ?_
    . refine htoken'.imp id ?_
      rintro ⟨_, a', w', _, hlex', hpast'⟩
      have := (past_lt hlex' hpast').1
      omega
    intro result
    exact (hiff result).trans (membersStart_iff.trans
      (hexact' (MemberAccepts nearest frames (ms ++ [(key, v)]) result) (fun _ _ => id)
        (follow_of_number fun _ _ => id)))
  . obtain ⟨parser'', hfinish, hcurrent', hrep'⟩ := finishObject_spec (hrep.withCurrent q) hstack
    simp only [hfinish, some_bind]
    refine .inl ⟨_, frames, rfl, ⟨hrep', hframes⟩, ?_, ?_⟩
    . rw [measure]
      dsimp only
      rw [hcurrent']
      dsimp only
      omega
    intro result
    rw [hiff, Accepts]
    dsimp only
    rw [hcurrent']
    rfl
  . exact ht.elim

theorem stepJSONMember_keeps {t : Token D}
    (h : Represents parser (.object ms none :: frames)) (hframes : ∀ f ∈ frames, f.Waiting)
    : Keeps nearest (fun v => MemberAccepts nearest frames ms v t parser.current.after)
        (measure (parser, .JSONMember t)) (stepJSONMember .JSONParse parser t) := by
  cases t with
  | String key =>
    obtain ⟨parser', hrun, hcurrent, hrep⟩ := emplaceBack_spec h key
    obtain ⟨t, q, hread, htoken, hexact⟩ := @advancePropertyColon_exact D nearest parser'.current
    have hiff := fun result => colon_iff.trans
      (hexact (AfterName nearest frames ms key result) (fun _ _ => id) (follow_of_number fun _ _ => id))
    rw [hcurrent] at hiff
    have hmode : ¬(ParseType.JSONParse = .AttemptForEval ∧ key = proto) := by
      rintro ⟨⟨⟩, _⟩
    rw [stepJSONMember, if_neg hmode, hrun]
    simp only [some_bind, hread]
    rcases htoken with ⟨report, rfl⟩ | ⟨ht, a, w, _, hlex, hpast⟩
    . exact keeps_error fun result => mt (hiff result).mp id
    obtain ⟨hlt, _⟩ := past_lt hlex hpast
    rw [hcurrent] at hlt
    rcases ht with rfl | ht
    . refine .inl ⟨_, _, rfl, ⟨hrep.withCurrent q, waiting_cons (by rintro ⟨⟩) hframes⟩, ?_, hiff⟩
      rw [measure, measure]
      dsimp only
      omega
    . exact ht.elim
  | Error report => exact keeps_error fun _ => id
  | _ => exact keeps_errorStep fun _ => id

theorem stepArrayOpen_keeps {conv : Conversions D} (hconv : conv.Correct nearest) (h : Represents parser frames)
    (hframes : ∀ f ∈ frames, f.Waiting)
    : Keeps nearest (fun v => SwitchAccepts nearest frames v .ArrayOpen parser.current.after)
        (4 * parser.current.after.length + 3) (stepArrayOpen conv parser) := by
  obtain ⟨parser', e, hrun, hcurrent, hrep⟩ := newElements_spec h
  obtain ⟨t, q, hread, htoken, hexact⟩ := advance_exact hconv parser'.current
  have hfollow : ∀ result t r, AfterArrayOpen nearest frames result t r → t.Follow r := by
    intro result t r hacc
    cases t with
    | Number d => exact SwitchAccepts.follow hacc
    | _ => rintro d ⟨⟩
  have hiff := fun result => arrayOpen_iff.trans
    (hexact (AfterArrayOpen nearest frames result) (fun _ _ => id) (hfollow result))
  rw [hcurrent] at hiff
  have hlt : t.IsError ∨ q.after.length < parser.current.after.length ∧ q.before ≠ [] := by
    refine htoken.imp id ?_
    rintro ⟨_, a, w, _, hlex, hpast⟩
    rw [← hcurrent]
    exact past_lt hlex hpast
  have hswitch : (∀ v, AfterArrayOpen nearest frames v t q.after ↔
        SwitchAccepts nearest (.array [] :: frames) v t q.after) →
      Keeps nearest (fun v => SwitchAccepts nearest frames v .ArrayOpen parser.current.after)
        (4 * parser.current.after.length + 3)
        (goto { parser' with stack := .ofElements e :: parser'.stack, current := q } (.JSONValueSwitch t)) := by
    intro hsame
    refine .inl ⟨_, _, rfl, ⟨hrep.withCurrent q, waiting_cons trivial hframes, hlt.imp id (·.2)⟩, ?_,
      fun v => (hiff v).trans (hsame v)⟩
    rcases hlt with ⟨report, rfl⟩ | ⟨hlt, _⟩
    . exact Nat.succ_pos _
    rw [measure]
    dsimp only
    cases t <;> simp only <;> omega
  rw [stepArrayOpen, hrun]
  simp only [some_bind, hread]
  cases t with
  | ArrayClose =>
    obtain ⟨parser'', hfinish, hcurrent', hrep'⟩ := finishArray_spec (hrep.withCurrent q) rfl
    simp only [hfinish, some_bind]
    refine .inl ⟨_, frames, rfl, ⟨hrep', hframes⟩, ?_, ?_⟩
    . rcases hlt with ⟨report, heq⟩ | ⟨hlt, _⟩
      . cases heq
      rw [measure]
      dsimp only
      rw [hcurrent']
      dsimp only
      omega
    . intro result
      refine (hiff result).trans ?_
      rw [Accepts]
      dsimp only
      rw [hcurrent']
      rfl
  | _ => exact hswitch fun _ => Iff.rfl

theorem stepObjectOpen_keeps (h : Represents parser frames) (hframes : ∀ f ∈ frames, f.Waiting)
    : Keeps nearest (fun v => SwitchAccepts nearest frames v .ObjectOpen parser.current.after)
        (4 * parser.current.after.length + 3) (stepObjectOpen parser) := by
  obtain ⟨parser', e, hrun, hcurrent, hrep⟩ := newProperties_spec h
  obtain ⟨t, q, hread, htoken, hexact⟩ := @advanceAfterObjectOpen_exact D nearest parser'.current
  have hiff := fun result => objectOpen_iff.trans
    (hexact (AfterObjectOpen nearest frames result) (fun _ _ => id) (follow_of_number fun _ _ => id))
  rw [hcurrent] at hiff
  have hlt : t.IsError ∨ q.after.length < parser.current.after.length := by
    refine htoken.imp id ?_
    rintro ⟨_, a, w, _, hlex, hpast⟩
    rw [← hcurrent]
    exact (past_lt hlex hpast).1
  have hmember : (∀ v, AfterObjectOpen nearest frames v t q.after ↔ MemberAccepts nearest frames [] v t q.after) →
      Keeps nearest (fun v => SwitchAccepts nearest frames v .ObjectOpen parser.current.after)
        (4 * parser.current.after.length + 3)
        (goto { parser' with stack := .ofProperties e :: parser'.stack, current := q } (.JSONMember t)) := by
    intro hsame
    refine keeps_member hrep hframes (hlt.imp id ?_) (Nat.succ_pos _) fun v => (hiff v).trans (hsame v)
    omega
  rw [stepObjectOpen, hrun]
  simp only [some_bind, hread]
  cases t with
  | ObjectClose =>
    obtain ⟨parser'', hfinish, hcurrent', hrep'⟩ := finishObject_spec (hrep.withCurrent q) rfl
    simp only [hfinish, some_bind]
    refine .inl ⟨_, frames, rfl, ⟨hrep', hframes⟩, ?_, ?_⟩
    . rcases hlt with ⟨report, heq⟩ | hlt
      . cases heq
      rw [measure]
      dsimp only
      rw [hcurrent']
      dsimp only
      omega
    . intro result
      refine (hiff result).trans ?_
      rw [Accepts]
      dsimp only
      rw [hcurrent']
      rfl
  | _ => exact hmember fun _ => Iff.rfl

theorem stepUnexpected_keeps {bound : Nat} (hbefore : parser.current.before ≠ [])
    (h : ∀ v, ¬accepts v) : Keeps nearest accepts bound (stepUnexpected .JSONParse parser) := by
  obtain ⟨c, rest, hc⟩ := exists_cons_of_ne_nil hbefore
  rw [stepUnexpected, RangedPtr.dec, hc]
  exact keeps_errorStep h

theorem stepJSONValueSwitch_keeps {conv : Conversions D} (hconv : conv.Correct nearest) {t : Token D}
    (h : Represents parser frames) (hframes : ∀ f ∈ frames, f.Waiting)
    (hbefore : t.IsError ∨ parser.current.before ≠ [])
    : Keeps nearest (fun v => SwitchAccepts nearest frames v t parser.current.after)
        (measure (parser, .JSONValueSwitch t)) (stepJSONValueSwitch conv .JSONParse parser t) := by
  have hvalue : ∀ v, Keeps nearest (Rest nearest frames v parser.current.after)
      (4 * parser.current.after.length + 3) (goto parser (.afterSwitch v)) := by
    intro v
    exact .inl ⟨_, frames, rfl, ⟨h, hframes⟩, Nat.lt_succ_self _, fun _ => Iff.rfl⟩
  have hclose : (¬t.IsError) → (∀ v, ¬SwitchAccepts nearest frames v t parser.current.after) →
      Keeps nearest (fun v => SwitchAccepts nearest frames v t parser.current.after)
        (measure (parser, .JSONValueSwitch t)) (stepUnexpected .JSONParse parser) := by
    intro ht hacc
    exact stepUnexpected_keeps (hbefore.resolve_left ht) hacc
  cases t with
  | String s => exact hvalue (.String s)
  | Number d => exact hvalue (.Number d)
  | True => exact hvalue (.Boolean true)
  | False => exact hvalue (.Boolean false)
  | Null => exact hvalue .Null
  | ArrayOpen => exact stepArrayOpen_keeps hconv h hframes
  | ObjectOpen => exact stepObjectOpen_keeps h hframes
  | Error report => exact keeps_error fun _ => id
  | _ => exact hclose (by rintro ⟨report, ⟨⟩⟩) fun _ => id

theorem stepAfterSwitch_keeps {v : Value D} (h : Represents parser frames) (hframes : ∀ f ∈ frames, f.Waiting)
    : Keeps nearest (Rest nearest frames v parser.current.after) (4 * parser.current.after.length + 2)
        (stepAfterSwitch .JSONParse parser v) := by
  cases frames with
  | nil =>
    have hstack : parser.stack = [] := forall₂_nil_right_iff.mp h.stack
    rw [stepAfterSwitch, hstack]
    have hskip := parser.current.skipWhile_past IsJSONWhitespace
    have hhead := fun x xs => @RangedPtr.skipWhile_head _ IsJSONWhitespace parser.current x xs
    have hws : Whitespace (parser.current.after.takeWhile IsJSONWhitespace) :=
      whitespace_iff.mpr fun c hc => mem_takeWhile_imp hc
    dsimp only
    generalize parser.current.skipWhile IsJSONWhitespace = q at hskip hhead
    split
    . next hend =>
      refine .inr ⟨_, rfl, .inl ⟨v, rfl⟩, ?_⟩
      intro result
      have hall : Whitespace parser.current.after := by
        rw [hskip.after, RangedPtr.isEnd_iff.mp hend, append_nil]
        exact hws
      constructor
      . rintro ⟨_, rfl⟩
        rfl
      intro heq
      cases heq
      exact ⟨hall, rfl⟩
    . next hend =>
      apply keeps_errorStep
      rintro result ⟨hall, _⟩
      match hq : q.after with
      | [] => exact hend (RangedPtr.isEnd_iff.mpr hq)
      | c :: r =>
        have hc := whitespace_iff.mp hall c (by rw [hskip.after, hq]; exact mem_append_right _ mem_cons_self)
        rw [hhead c r hq] at hc
        cases hc
  | cons f fs =>
    have hwaiting := hframes f mem_cons_self
    have hrest := fun f' hf' => hframes f' (mem_cons_of_mem f hf')
    cases f with
    | array vs =>
      obtain ⟨e, stack, hstack, _⟩ := h.array_top
      rw [stepAfterSwitch, hstack]
      exact .inl ⟨_, _, rfl, ⟨h, vs, fs, rfl, hrest⟩, Nat.lt_succ_self _, fun _ => Iff.rfl⟩
    | object ms key =>
      obtain ⟨e, stack, hstack, _⟩ := h.object_top
      obtain ⟨k, rfl⟩ := Option.ne_none_iff_exists'.mp hwaiting
      rw [stepAfterSwitch, hstack]
      exact .inl ⟨_, _, rfl, ⟨h, ms, k, fs, rfl, hrest⟩, Nat.lt_succ_self _, fun _ => Iff.rfl⟩

theorem step_keeps {conv : Conversions D} (hconv : conv.Correct nearest) {c : JSONParser D × Point D}
    (h : Inv c frames)
    : Keeps nearest (Accepts nearest c frames) (measure c) (step conv .JSONParse c) := by
  obtain ⟨parser, point⟩ := c
  obtain ⟨hrep, hpoint⟩ := h
  cases point with
  | FinishObjectMember v =>
    obtain ⟨ms, key, fs, rfl, hframes⟩ := hpoint
    exact stepFinishObjectMember_keeps hrep hframes
  | FinishArrayElement v =>
    obtain ⟨vs, fs, rfl, hframes⟩ := hpoint
    exact stepFinishArrayElement_keeps hrep hframes
  | JSONMember t =>
    obtain ⟨ms, fs, rfl, hframes⟩ := hpoint
    exact stepJSONMember_keeps hrep hframes
  | JSONValueSwitch t => exact stepJSONValueSwitch_keeps hconv hrep hpoint.1 hpoint.2
  | afterSwitch v => exact stepAfterSwitch_keeps hrep hpoint
  | JSONValue =>
    obtain ⟨t, q, hread, htoken, hexact⟩ := advance_exact hconv parser.current
    have hiff := fun result => start_iff.trans
      (hexact (SwitchAccepts nearest frames result) (fun _ _ => id) fun _ _ => SwitchAccepts.follow)
    have hlt : t.IsError ∨ q.after.length < parser.current.after.length ∧ q.before ≠ [] := by
      refine htoken.imp id ?_
      rintro ⟨_, a, w, _, hlex, hpast⟩
      exact past_lt hlex hpast
    rw [step]
    dsimp only
    rw [hread]
    refine .inl ⟨_, frames, rfl, ⟨hrep.withCurrent q, hpoint, hlt.imp id (·.2)⟩, ?_, hiff⟩
    rcases hlt with ⟨report, rfl⟩ | ⟨hlt, _⟩
    . exact Nat.succ_pos _
    rw [measure, measure]
    dsimp only
    cases t <;> simp only <;> omega

end Steps

variable {D : Type} {conv : Conversions D} {nearest : Nearest D}

theorem start_iff_text {text : List CharT} {v : Value D} : Start nearest [] text v ↔ JSONText nearest text v := by
  constructor
  . rintro ⟨a, w, v, b, rfl, ha, hv, hb, rfl⟩
    exact .value ha hv hb
  . rintro ⟨ha, hv, hb⟩
    exact ⟨_, _, _, _, rfl, ha, hv, hb, rfl⟩

theorem init_inv (text : List CharT)
    : Inv (({ current := .ofList text }, .JSONValue) : JSONParser D × Point D) [] := by
  refine ⟨⟨.nil, ⟨nodup_nil, ?_⟩, ⟨nodup_nil, ?_⟩⟩, ?_⟩ <;> exact fun _ h => (not_mem_nil h).elim

theorem parse_returns (hconv : conv.Correct nearest) (text : List CharT)
    : ∃ r, (∀ rounds, 4 * text.length + 4 < rounds → parse conv .JSONParse rounds text = some r) ∧ Returned r ∧
        ∀ v, JSONText nearest text v ↔ Succeeds r v := by
  obtain ⟨r, hrun, hreturned, hiff⟩ := Loop.runUntil_exact (fun c frames h => step_keeps hconv h) (init_inv text)
  exact ⟨r, hrun, hreturned, fun v => start_iff_text.symm.trans (hiff v)⟩

end SpiderMonkey.JSON
