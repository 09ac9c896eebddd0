import SpiderMonkey.Vm.Lemmas.CharacterEncoding

/-!
This module contains what the inflation of UTF-8 and WTF-8 delivers.
-/

namespace SpiderMonkey.CharacterEncoding

open List
open Utf8

section Scan

inductive Item where
  | good (c : Nat)
  | bad (ill : List (BitVec 8)) (report : Report)

def Item.units (replacement : BitVec 16) : Item → List (BitVec 16)
  | good c => utf16 c
  | bad _ _ => [replacement]

def unitsOf (replacement : BitVec 16) (items : List Item) : List (BitVec 16) := items.flatMap (·.units replacement)

inductive Scans (kind : InputChars) : List (BitVec 8) → List Item → Prop where
  | nil : Scans kind [] []
  | good {c : Nat} {bytes : List (BitVec 8)} {items : List Item}
    : kind.Allows c → Scans kind bytes items → Scans kind (encode c ++ bytes) (.good c :: items)
  | bad {ill bytes : List (BitVec 8)} {report : Report} {items : List Item}
    : ill ≠ [] → (∀ k < ill.length, ¬Begins kind.Allows ((ill ++ bytes).drop k)) → Scans kind bytes items
      → Scans kind (ill ++ bytes) (.bad ill report :: items)

def Item.isGood : Item → Bool
  | good _ => true
  | bad _ _ => false

def OnUTF8Error.replacement? : OnUTF8Error → Option (BitVec 16)
  | InsertReplacementCharacter => some REPLACEMENT_CHARACTER
  | InsertQuestionMark => some 0x3F
  | _ => none

variable {σ : Type} {kind : InputChars} {src bytes : List (BitVec 8)} {i : Nat} {items : List Item}

def outputItems (errorAction : OnUTF8Error) (dst : σ → BitVec 16 → Option σ) : List Item → σ → Option (Except Report σ)
  | [], s => some (.ok s)
  | .good c :: items, s => do
    let s ← (utf16 c).foldlM dst s
    outputItems errorAction dst items s
  | .bad _ report :: items, s =>
    match errorAction.replacement? with
    | some replacement => do
      let s ← dst s replacement
      outputItems errorAction dst items s
    | none => if errorAction = .Throw then some (.error report) else none

theorem exists_scans (hshort : Short src) (hi : i ≤ src.length)
    : ∃ items, Scans kind (src.drop i) items
      ∧ ∀ (σ : Type) (errorAction : OnUTF8Error) (dst : σ → BitVec 16 → Option σ) (rounds : Nat) (s : σ),
        src.length - i < rounds
          → inflateFrom errorAction kind src dst rounds i s = outputItems errorAction dst items s := by
  generalize hn : src.length - i = n
  induction n using Nat.strong_induction_on generalizing i with
  | _ n ih =>
    cases hdrop : src.drop i with
    | nil =>
      have hge : src.length ≤ i := drop_eq_nil_iff.mp hdrop
      refine ⟨[], .nil, fun σ errorAction dst rounds s hrounds => ?_⟩
      cases rounds with
      | zero => omega
      | succ rounds => exact if_neg (Nat.not_lt.mpr hge)
    | cons b rest =>
      have hlt := lt_of_drop hdrop
      have hlength := length_of_drop hdrop
      obtain ⟨found, hfound, hright⟩ := @decodeAt_right kind _ _ _ _ hshort hdrop
      cases found with
      | units units n =>
        obtain ⟨c, hc, ⟨rest', hrest⟩, rfl, rfl⟩ := hright
        have hpos : 0 < (encode c).length := length_pos_iff.mpr encode_ne_nil
        have hle : (encode c).length + rest'.length = rest.length + 1 := by
          have := congrArg List.length hrest
          rwa [length_append, length_cons] at this
        have hdrop' : src.drop (i + (encode c).length) = rest' := by
          rw [← drop_drop, hdrop, ← hrest, drop_left]
        obtain ⟨items, hscans, hrun⟩ := @ih _ (by omega) (i + (encode c).length) (by omega) rfl
        rw [hdrop'] at hscans
        refine ⟨.good c :: items, hrest ▸ .good hc hscans, fun σ errorAction dst rounds s hrounds => ?_⟩
        obtain ⟨rounds, rfl⟩ : ∃ r, rounds = r + 1 := ⟨rounds - 1, by omega⟩
        unfold inflateFrom outputItems
        rw [if_pos hlt]
        simp only [hfound, some_bind]
        have hoffset : addOffset i (encode c).length = i + (encode c).length := by
          have := hshort.1
          exact addOffset_eq (by omega)
        rw [hoffset]
        congr 1
        funext s
        exact hrun σ errorAction dst rounds s (by omega)
      | invalid report n =>
        obtain ⟨hpos, hle, hnot⟩ := hright
        rw [length_cons] at hle
        obtain ⟨items, hscans, hrun⟩ := @ih _ (by omega) (i + n) (by omega) rfl
        have hsplit : b :: rest = (b :: rest).take n ++ src.drop (i + n) := by
          rw [← drop_drop, hdrop, take_append_drop]
        have hlen : ((b :: rest).take n).length = n := by
          rw [length_take, length_cons]
          omega
        refine ⟨.bad ((b :: rest).take n) report :: items, ?_, fun σ errorAction dst rounds s hrounds => ?_⟩
        . have hne : (b :: rest).take n ≠ [] := by
            rw [← length_pos_iff, hlen]
            exact hpos
          have hbad := @Scans.bad kind _ _ report _ hne (by rw [hlen, ← hsplit]; exact hnot) hscans
          rwa [← hsplit] at hbad
        obtain ⟨rounds, rfl⟩ : ∃ r, rounds = r + 1 := ⟨rounds - 1, by omega⟩
        have hoffset : addOffset i n = i + n := by
          have := hshort.1
          exact addOffset_eq (by omega)
        unfold inflateFrom outputItems
        rw [if_pos hlt]
        simp only [hfound, some_bind, hoffset]
        cases errorAction with
        | Throw => rfl
        | Crash => rfl
        | InsertReplacementCharacter =>
          exact congrArg (Option.bind (dst s REPLACEMENT_CHARACTER))
            (funext fun s => hrun σ .InsertReplacementCharacter dst rounds s (by omega))
        | InsertQuestionMark =>
          exact congrArg (Option.bind (dst s 0x3F)) (funext fun s => hrun σ .InsertQuestionMark dst rounds s (by omega))

theorem Scans.decodes (h : Scans kind bytes items) (replacement : BitVec 16)
    : Decodes kind.Allows replacement bytes (unitsOf replacement items) := by
  induction h with
  | nil => exact .nil
  | good hc _ ih => exact .good hc ih
  | bad hne hill _ ih => exact .bad hne hill ih

theorem Scans.wellFormed_iff (h : Scans kind bytes items) : WellFormed kind.Allows bytes ↔ ∀ item ∈ items, item.isGood := by
  induction h with
  | nil => exact ⟨fun _ => nofun, fun _ => ⟨[], nofun, rfl⟩⟩
  | @good c bytes items hc _ ih =>
    rw [forall_mem_cons, ← ih]
    constructor
    . exact fun h => ⟨rfl, h.tail (fun _ hc => hc.le) hc⟩
    . rintro ⟨-, cs, hcs, rfl⟩
      refine ⟨c :: cs, forall_mem_cons.mpr ⟨hc, hcs⟩, rfl⟩
  | @bad ill bytes report items hne hill _ ih =>
    constructor
    . intro h
      obtain ⟨b, ill, rfl⟩ := exists_cons_of_ne_nil hne
      exact absurd (Begins.of_wellFormed h) (hill 0 (Nat.zero_lt_succ _))
    . intro h
      exact absurd (h _ mem_cons_self) nofun

theorem Scans.codePoints (h : Scans kind bytes items) (hgood : ∀ item ∈ items, item.isGood)
    : ∃ cs : List Nat, (∀ c ∈ cs, kind.Allows c) ∧ bytes = cs.flatMap encode
      ∧ ∀ replacement, unitsOf replacement items = cs.flatMap utf16 := by
  induction h with
  | nil => exact ⟨[], nofun, rfl, fun _ => rfl⟩
  | @good c bytes items hc _ ih =>
    obtain ⟨cs, hcs, rfl, hunits⟩ := ih (forall_mem_cons.mp hgood).2
    refine ⟨c :: cs, forall_mem_cons.mpr ⟨hc, hcs⟩, rfl, fun replacement => ?_⟩
    rw [flatMap_cons, ← hunits replacement]
    rfl
  | bad => exact absurd (hgood _ mem_cons_self) nofun

theorem foldlM_flatMap_unitsOf {dst : σ → BitVec 16 → Option σ} {errorAction : OnUTF8Error} {replacement : BitVec 16}
    (h : (∀ item ∈ items, item.isGood) ∨ errorAction.replacement? = some replacement) (s : σ)
    : outputItems errorAction dst items s = ((unitsOf replacement items).foldlM dst s).map .ok := by
  induction items generalizing s with
  | nil => rfl
  | cons item items ih =>
    have hih := @ih (h.imp_left fun h => (forall_mem_cons.mp h).2)
    cases item with
    | good c =>
      unfold outputItems unitsOf
      rw [flatMap_cons, foldlM_append]
      simp only [Option.bind_eq_bind, Option.map_bind]
      exact congrArg _ (funext hih)
    | bad ill report =>
      have h := h.resolve_left fun h => absurd (h _ mem_cons_self) nofun
      unfold outputItems unitsOf
      rw [flatMap_cons, foldlM_append, h]
      simp only [Item.units, foldlM_cons, foldlM_nil, Option.bind_eq_bind, Option.map_bind, Option.bind_assoc]
      exact congrArg _ (funext hih)

theorem outputItems_throw {dst : σ → BitVec 16 → Option σ} (hdst : ∀ s c, (dst s c).isSome)
    (h : ¬∀ item ∈ items, item.isGood) (s : σ) : ∃ report, outputItems .Throw dst items s = some (.error report) := by
  induction items generalizing s with
  | nil => exact absurd nofun h
  | cons item items ih =>
    cases item with
    | good c =>
      have hsome : ∀ units : List (BitVec 16), ∀ s, ∃ s', units.foldlM dst s = some s' := by
        intro units
        induction units with
        | nil => exact fun s => ⟨s, rfl⟩
        | cons u units ih =>
          intro s
          obtain ⟨s', hs'⟩ := Option.isSome_iff_exists.mp (hdst s u)
          rw [foldlM_cons, hs']
          exact ih s'
      obtain ⟨s', hs'⟩ := hsome (utf16 c) s
      obtain ⟨report, hreport⟩ := ih (fun hall => h (forall_mem_cons.mpr ⟨rfl, hall⟩)) s'
      refine ⟨report, ?_⟩
      unfold outputItems
      rw [hs']
      exact hreport
    | bad ill report => exact ⟨report, rfl⟩

end Scan

section Passes

variable {kind : InputChars} {src : List (BitVec 8)} {t : CharT} {units : List (BitVec 16)}

def isASCII (units : List (BitVec 16)) : Bool := units.all (·.toNat < 0x80)

theorem foldlM_count (units : List (BitVec 16)) (len : Nat) (allASCII : Bool)
    : units.foldlM count (len, allASCII) = some (len + units.length, allASCII && isASCII units) := by
  induction units generalizing len allASCII with
  | nil =>
    simp [isASCII]
  | cons u units ih =>
    rw [foldlM_cons]
    simp only [count, some_bind, ih, length_cons, isASCII, all_cons, Bool.and_assoc]
    rw [Nat.add_right_comm, Nat.add_assoc]

def charsOf (t : CharT) (units : List (BitVec 16)) : Buffer t := units.map fun c => some (c.setWidth t.width)

theorem write_append {pre rest : Buffer t} {cell : Option (BitVec t.width)} (c : BitVec t.width)
    : write (pre ++ cell :: rest) pre.length c = some (pre ++ some c :: rest) := by
  unfold write
  rw [if_pos (by simp), set_append_right _ _ (Nat.le_refl _), Nat.sub_self, set_cons_zero]

theorem foldlM_push {pre : Buffer t} {room : Nat} (hroom : units.length ≤ room)
    : units.foldlM push (pre ++ List.replicate room none, pre.length)
      = some (pre ++ charsOf t units ++ List.replicate (room - units.length) none, pre.length + units.length) := by
  induction units generalizing pre room with
  | nil =>
    simp [charsOf]
  | cons u units ih =>
    rw [length_cons] at hroom
    obtain ⟨room, rfl⟩ : ∃ r, room = r + 1 := ⟨room - 1, by omega⟩
    rw [foldlM_cons]
    simp only [push, replicate_succ, write_append, some_bind]
    have hpre : pre ++ some (u.setWidth t.width) :: List.replicate room none
        = (pre ++ [some (u.setWidth t.width)]) ++ List.replicate room none := by
      rw [append_assoc]
      rfl
    have hlen : pre.length + 1 = (pre ++ [some (u.setWidth t.width)]).length := by
      rw [length_append, length_singleton]
    rw [hpre, hlen, ih (by omega), ← hlen, length_cons, Nat.add_sub_add_right]
    refine congrArg some (Prod.ext ?_ ?_)
    . simp [charsOf]
    . exact Nat.add_right_comm pre.length 1 units.length

theorem copyASCII_spec {pre : Buffer t} {rest : List (BitVec 8)} {rounds : Nat} (hshort : Short src)
    (hdrop : src.drop pre.length = rest) (hle : pre.length ≤ src.length) (hrounds : rest.length < rounds)
    {room : Buffer t}
    : copyASCII src rounds pre.length (pre ++ room) = if rest.length ≤ room.length then
          some (pre ++ (rest.map fun c => some (c.setWidth t.width)) ++ room.drop rest.length) else none := by
  induction rest generalizing pre rounds room with
  | nil =>
    have hge : src.length ≤ pre.length := drop_eq_nil_iff.mp hdrop
    cases rounds with
    | zero => omega
    | succ rounds =>
      unfold copyASCII
      rw [if_neg (Nat.not_lt.mpr hge), length_nil, if_pos (Nat.zero_le room.length), map_nil, append_nil, drop_zero]
  | cons b rest ih =>
    have hlt := lt_of_drop hdrop
    rw [length_cons] at hrounds
    obtain ⟨rounds, rfl⟩ : ∃ r, rounds = r + 1 := ⟨rounds - 1, by omega⟩
    unfold copyASCII
    rw [if_pos hlt]
    simp only [getElem?_of_drop hdrop, some_bind]
    cases room with
    | nil =>
      rw [if_neg (by simp), append_nil]
      unfold write
      rw [if_neg (Nat.lt_irrefl _)]
      rfl
    | cons cell room =>
      rw [write_append, some_bind, addOffset_eq (Nat.lt_of_le_of_lt hlt hshort.1)]
      have hpre : pre ++ some (b.setWidth t.width) :: room = (pre ++ [some (b.setWidth t.width)]) ++ room := by
        rw [append_assoc]
        rfl
      have hlen : pre.length + 1 = (pre ++ [some (b.setWidth t.width)]).length := by
        rw [length_append, length_singleton]
      rw [hpre, hlen, ih ?_ ?_ (by omega)]
      . simp
      . rw [← hlen, ← drop_drop, hdrop, drop_succ_cons, drop_zero]
      . rw [← hlen]
        exact hlt

-- Where the offsets do not wrap around, the loop scans all of the source.
def ScansAll (kind : InputChars) (src : List (BitVec 8)) (items : List Item) : Prop :=
  Scans kind src items ∧ ∀ (σ : Type) (errorAction : OnUTF8Error) (dst : σ → BitVec 16 → Option σ) (rounds : Nat) (s : σ),
    src.length < rounds → InflateUTF8ToUTF16 errorAction kind src dst rounds s = outputItems errorAction dst items s

theorem exists_scansAll (kind : InputChars) (hshort : Short src) : ∃ items, ScansAll kind src items :=
  exists_scans hshort (Nat.zero_le _)

variable {items : List Item} {errorAction : OnUTF8Error} {replacement : BitVec 16} {rounds : Nat}

theorem copyAndInflate_units (hscans : ScansAll kind src items) (hrounds : src.length < rounds)
    (h : (∀ item ∈ items, item.isGood) ∨ errorAction.replacement? = some replacement)
    : CopyAndInflateUTF8IntoBuffer errorAction kind src (.replicate ((unitsOf replacement items).length + 1) none)
        (unitsOf replacement items).length false rounds
      = some (charsOf t (unitsOf replacement items) ++ [some 0]) := by
  have hpush := @foldlM_push t (unitsOf replacement items) [] _ (Nat.le_succ _)
  have hrun := hscans.2 _ errorAction (@push t) rounds (.replicate ((unitsOf replacement items).length + 1) none, 0) hrounds
  rw [foldlM_flatMap_unitsOf h] at hrun
  rw [nil_append, nil_append, Nat.succ_eq_add_one, Nat.add_sub_cancel_left, length_nil] at hpush
  rw [hpush] at hrun
  unfold CopyAndInflateUTF8IntoBuffer
  rw [if_neg (by decide), hrun]
  have hlen : (charsOf t (unitsOf replacement items)).length = (unitsOf replacement items).length := length_map _
  have hwrite := @write_append t (charsOf t (unitsOf replacement items)) [] none 0
  rw [hlen] at hwrite
  exact hwrite

theorem copyAndInflate_bytes {outlen : Nat} (hshort : Short src) (hrounds : src.length < rounds)
    : CopyAndInflateUTF8IntoBuffer errorAction kind src (.replicate (outlen + 1) none) outlen true rounds
      = if src.length ≤ outlen + 1 then
          write ((src.map fun c => some (c.setWidth t.width)) ++ .replicate (outlen + 1 - src.length) none) outlen 0
        else none := by
  have hcopy := @copyASCII_spec src t [] src rounds hshort rfl (Nat.zero_le _) hrounds (.replicate (outlen + 1) none)
  rw [nil_append, nil_append, length_nil, length_replicate, drop_replicate] at hcopy
  unfold CopyAndInflateUTF8IntoBuffer
  rw [if_pos rfl, hcopy]
  split <;> rfl

end Passes

section Results

def CharsZ.Holds (z : CharsZ) (units : List (BitVec 16)) : Prop :=
  ∃ cs : List (BitVec z.charT.width), z.chars = cs.map some ++ [some 0] ∧ z.length = cs.length
    ∧ cs.map (·.setWidth 16) = units

def Inflation.kind : Inflation → InputChars
  | WTF8CharsToNewTwoByteCharsZ => .WTF8Chars
  | inflateForAtomization kind => kind
  | _ => .UTF8Chars

def Inflation.replacement? : Inflation → Option (BitVec 16)
  | LossyUTF8CharsToNewTwoByteCharsZ => some REPLACEMENT_CHARACTER
  | LossyUTF8CharsToNewLatin1CharsZ => some 0x3F
  | _ => none

def Inflation.Encodes (inflation : Inflation) (cs : List Nat) (src : List (BitVec 8)) : Prop :=
  (∀ c ∈ cs, inflation.kind.Allows c) ∧ NoSurrogatePair cs ∧ src = cs.flatMap encode

def Inflation.Delivers (inflation : Inflation) (src : List (BitVec 8)) (result : Except Report CharsZ) : Prop :=
  match inflation.replacement? with
  | some replacement => ∃ z units, result = .ok z ∧ Decodes inflation.kind.Allows replacement src units ∧ z.Holds units
  | none =>
    match result with
    | .error _ => ∀ cs, ¬inflation.Encodes cs src
    | .ok z => ∃ cs, inflation.Encodes cs src ∧ z.Holds (cs.flatMap utf16)

def Inflation.Exact (inflation : Inflation) (src : List (BitVec 8)) : Prop :=
  ∃ result, (∃ n, ∀ rounds ≥ n, inflation.inflate src true rounds = some result) ∧ inflation.Delivers src result

def OnlyLatin1 (src : List (BitVec 8)) : Prop := ∀ c, IsScalarValue c → encode c <:+: src → c < 0x100

def OnlyLoneSurrogates (src : List (BitVec 8)) : Prop :=
  ∀ cs : List Nat, (∀ c ∈ cs, IsCodePoint c) → src = cs.flatMap encode → NoSurrogatePair cs

-- Latin-1 characters can only hold some code points, and ill-formed bytes are only replaced next to one that is
-- not ASCII. A surrogate is allowed without a look at the one before it.
def Inflation.HoldsWhen (inflation : Inflation) (src : List (BitVec 8)) : Prop :=
  match inflation with
  | UTF8CharsToNewLatin1CharsZ => WellFormed IsScalarValue src → OnlyLatin1 src
  | LossyUTF8CharsToNewLatin1CharsZ => OnlyLatin1 src
    ∧ ((∀ b ∈ src, b.toNat < 0x80) ∨ ∃ c, 0x80 ≤ c ∧ IsScalarValue c ∧ encode c <:+: src)
  | WTF8CharsToNewTwoByteCharsZ => OnlyLoneSurrogates src
  | inflateForAtomization .WTF8Chars => OnlyLoneSurrogates src
  | _ => True

variable {kind : InputChars} {src : List (BitVec 8)} {t : CharT} {units : List (BitVec 16)}

theorem allows_of_ascii {c : Nat} (h : c < 0x80) : kind.Allows c := by
  cases kind with
  | UTF8Chars => exact ⟨by omega, by omega⟩
  | WTF8Chars => exact Nat.le_trans (Nat.le_of_lt h) (by decide)

theorem holds_units {len : Nat} (hlen : len = units.length) (hunits : ∀ u ∈ units, u.toNat < 2 ^ t.width)
    : CharsZ.Holds ⟨t, charsOf t units ++ [some 0], len⟩ units := by
  refine ⟨units.map (·.setWidth t.width), ?_, ?_, ?_⟩
  . rw [map_map]
    rfl
  . rw [length_map]
    exact hlen
  rw [map_map]
  conv_rhs => rw [← map_id units]
  apply map_congr_left
  intro u hu
  apply BitVec.eq_of_toNat_eq
  have := hunits u hu
  simp only [Function.comp_apply, BitVec.toNat_setWidth, id_eq]
  rw [Nat.mod_eq_of_lt this, Nat.mod_eq_of_lt u.isLt]

theorem holds_bytes {len : Nat} (hlen : len = src.length)
    : CharsZ.Holds ⟨t, (src.map fun c => some (c.setWidth t.width)) ++ [some 0], len⟩ (src.map (·.setWidth 16)) := by
  have hwidth : 8 ≤ t.width := by cases t <;> decide
  refine ⟨src.map (·.setWidth t.width), ?_, ?_, ?_⟩
  . rw [map_map]
    rfl
  . rw [length_map]
    exact hlen
  rw [map_map]
  apply map_congr_left
  intro b _
  apply BitVec.eq_of_toNat_eq
  simp only [Function.comp_apply, BitVec.toNat_setWidth]
  rw [Nat.mod_eq_of_lt (Nat.lt_of_lt_of_le b.isLt (Nat.pow_le_pow_right (by decide) hwidth))]

theorem CharsZ.Holds.lt {z : CharsZ} (h : z.Holds units) : ∀ u ∈ units, u.toNat < 2 ^ z.charT.width := by
  obtain ⟨cs, -, -, rfl⟩ := h
  intro u hu
  obtain ⟨c, -, rfl⟩ := mem_map.mp hu
  rw [BitVec.toNat_setWidth]
  exact Nat.lt_of_le_of_lt (Nat.mod_le _ _) c.isLt

def CharT.replacement : CharT → BitVec 16
  | Latin1Char => 0x3F
  | char16_t => REPLACEMENT_CHARACTER

variable {items : List Item} {errorAction : OnUTF8Error} {rounds : Nat}

theorem helper_error (hscans : ScansAll kind src items) (hbad : ¬∀ item ∈ items, item.isGood)
    : ∃ report, ∀ rounds > src.length, InflateUTF8StringHelper .Throw t kind src true rounds = some (.error report) := by
  obtain ⟨report, hreport⟩ := @outputItems_throw _ items count (fun _ _ => rfl) hbad (0, true)
  refine ⟨report, fun rounds hrounds => ?_⟩
  unfold InflateUTF8StringHelper
  rw [hscans.2 _ _ count rounds (0, true) hrounds, hreport]
  rfl

theorem helper_copy (hscans : ScansAll kind src items)
    (h : (∀ item ∈ items, item.isGood) ∨ errorAction.replacement? = some t.replacement) (hrounds : src.length < rounds)
    : ∃ errorMode : OnUTF8Error, errorMode.replacement? = some t.replacement
      ∧ InflateUTF8StringHelper errorAction t kind src true rounds = ((CopyAndInflateUTF8IntoBuffer errorMode kind src
            (.replicate ((unitsOf t.replacement items).length + 1) none) (unitsOf t.replacement items).length
            (isASCII (unitsOf t.replacement items)) rounds).map
          fun dst => ⟨t, dst, (unitsOf t.replacement items).length⟩).map .ok := by
  refine ⟨if t = .Latin1Char then .InsertQuestionMark else .InsertReplacementCharacter, by cases t <;> rfl, ?_⟩
  unfold InflateUTF8StringHelper
  rw [hscans.2 _ _ count rounds (0, true) hrounds, foldlM_flatMap_unitsOf h, foldlM_count, Nat.zero_add, Bool.true_and]
  rw [Option.map_map]
  exact Option.map_eq_bind.symm

theorem helper_holds (hshort : Short src) (hscans : ScansAll kind src items)
    (h : (∀ item ∈ items, item.isGood) ∨ errorAction.replacement? = some t.replacement)
    (hunits : ∀ u ∈ unitsOf t.replacement items, u.toNat < 2 ^ t.width)
    (hascii : isASCII (unitsOf t.replacement items) = true → ∀ b ∈ src, b.toNat < 0x80)
    : ∃ z, (∀ rounds > src.length, InflateUTF8StringHelper errorAction t kind src true rounds = some (.ok z))
      ∧ z.Holds (unitsOf t.replacement items) := by
  cases hall : isASCII (unitsOf t.replacement items) with
  | false =>
    refine ⟨_, fun rounds hrounds => ?_, holds_units rfl hunits⟩
    obtain ⟨errorMode, hmode, hhelper⟩ := helper_copy hscans h hrounds
    rw [hhelper, hall, copyAndInflate_units hscans hrounds (.inr hmode)]
    rfl
  | true =>
    have heq : unitsOf t.replacement items = src.map (·.setWidth 16) :=
      (hscans.1.decodes t.replacement).of_ascii (fun c hc => allows_of_ascii hc) (fun c hc => hc.le) (hascii hall)
    have hlen : (unitsOf t.replacement items).length = src.length := by
      rw [heq, length_map]
    have happend := @write_append t (src.map fun c => some (c.setWidth t.width)) [] none 0
    rw [length_map] at happend
    have hcopy := @copyAndInflate_bytes kind src t
    have hholds := @holds_bytes src t _ hlen
    rw [← heq] at hholds
    refine ⟨_, fun rounds hrounds => ?_, hholds⟩
    obtain ⟨errorMode, hmode, hhelper⟩ := helper_copy hscans h hrounds
    rw [hhelper, hall, hcopy hshort hrounds, hlen, if_pos (Nat.le_succ _), Nat.add_sub_cancel_left,
      replicate_one, happend]
    rfl

theorem helper_charT {z : CharsZ} (h : InflateUTF8StringHelper errorAction t kind src true rounds = some (.ok z))
    : z.charT = t := by
  unfold InflateUTF8StringHelper at h
  simp only [Option.bind_eq_bind, Option.bind_eq_some_iff] at h
  obtain ⟨result, -, h⟩ := h
  cases result with
  | error report => cases h
  | ok s =>
    simp only [Bool.not_true, Bool.false_eq_true, if_false, Option.bind_eq_some_iff, Option.some.injEq] at h
    obtain ⟨dst, -, h⟩ := h
    cases h
    rfl

theorem helper_raw (hshort : Short src) (hscans : ScansAll kind src items)
    (h : errorAction.replacement? = some t.replacement) (hall : isASCII (unitsOf t.replacement items) = true)
    (hrounds : src.length < rounds) {pre rest : List (BitVec 8)} {b : BitVec 8} (hsrc : src = pre ++ b :: rest)
    (hlen : pre.length < (unitsOf t.replacement items).length) {z : CharsZ}
    (hhelper : InflateUTF8StringHelper errorAction t kind src true rounds = some (.ok z)) (units : List (BitVec 16))
    (hholds : z.Holds units) : units[pre.length]? = some (b.setWidth 16) := by
  obtain ⟨errorMode, -, hcopy⟩ := helper_copy hscans (.inr h) hrounds
  rw [hcopy, hall, copyAndInflate_bytes hshort hrounds] at hhelper
  split at hhelper
  next hle =>
    unfold write at hhelper
    split at hhelper
    next hroom =>
      simp only [Option.map_some, Option.some.injEq, Except.ok.injEq] at hhelper
      subst hhelper
      obtain ⟨cs, hchars, hcs, rfl⟩ := hholds
      dsimp only at hchars hcs cs
      have hwidth : 8 ≤ t.width := by cases t <;> decide
      have hget := congrArg (·[pre.length]?) hchars
      rw [List.getElem?_set_ne (Nat.ne_of_gt hlen), List.getElem?_append_left (by rw [hsrc]; simp),
        List.getElem?_append_left (by rw [length_map]; omega), hsrc, List.getElem?_map, List.getElem?_map,
        List.getElem?_append_right (Nat.le_refl _), Nat.sub_self, List.getElem?_cons_zero, Option.map_some] at hget
      obtain ⟨c, hc, hcb⟩ := Option.map_eq_some_iff.mp hget.symm
      rw [List.getElem?_map, hc, Option.map_some, Option.some.inj hcb]
      congr 1
      apply BitVec.eq_of_toNat_eq
      simp only [BitVec.toNat_setWidth]
      rw [Nat.mod_eq_of_lt (Nat.lt_of_lt_of_le b.isLt (Nat.pow_le_pow_right (by decide) hwidth))]
    next => contradiction
  next => contradiction

end Results

section Exact

variable {kind : InputChars} {src : List (BitVec 8)} {items : List Item}

theorem exists_first_not_ascii (h : ¬∀ b ∈ src, b.toNat < 0x80)
    : ∃ pre b rest, src = pre ++ b :: rest ∧ (∀ b ∈ pre, b.toNat < 0x80) ∧ ¬b.toNat < 0x80 := by
  induction src with
  | nil => exact absurd nofun h
  | cons b src ih =>
    by_cases hb : b.toNat < 0x80
    . obtain ⟨pre, b', rest, rfl, hpre, hb'⟩ := ih fun hall => h (forall_mem_cons.mpr ⟨hb, hall⟩)
      exact ⟨b :: pre, b', rest, rfl, forall_mem_cons.mpr ⟨hb, hpre⟩, hb'⟩
    . exact ⟨[], b, src, rfl, nofun, hb⟩

theorem isASCII_iff {units : List (BitVec 16)} : isASCII units = true ↔ ∀ u ∈ units, u.toNat < 0x80 := by
  simp [isASCII]

theorem ascii_of_isASCII {replacement : BitVec 16} (hscans : Scans kind src items)
    (h : (∀ item ∈ items, item.isGood) ∨ 0x80 ≤ replacement.toNat)
    (hall : isASCII (unitsOf replacement items) = true) : ∀ b ∈ src, b.toNat < 0x80 := by
  rw [isASCII_iff] at hall
  rcases h with hgood | hreplacement
  . obtain ⟨cs, hcs, rfl, hunits⟩ := hscans.codePoints hgood
    rw [hunits] at hall
    exact (decodes_flatMap REPLACEMENT_CHARACTER hcs).ascii_of_units (fun c hc => hc.le) (by decide) hall
  . exact (hscans.decodes replacement).ascii_of_units (fun c hc => hc.le) hreplacement hall

theorem units_lt_two_pow_sixteen {units : List (BitVec 16)} : ∀ u ∈ units, u.toNat < 2 ^ CharT.width .char16_t :=
  fun u _ => u.isLt

-- What a throwing inflation does, whose code points may be any that the input characters allow.
def DeliversCodePoints (kind : InputChars) (src : List (BitVec 8)) : Except Report CharsZ → Prop
  | .error _ => ¬WellFormed kind.Allows src
  | .ok z => ∃ cs : List Nat, (∀ c ∈ cs, kind.Allows c) ∧ src = cs.flatMap encode ∧ z.Holds (cs.flatMap utf16)

theorem throw_delivers (hshort : Short src)
    (hunits : ∀ cs : List Nat, (∀ c ∈ cs, kind.Allows c) → src = cs.flatMap encode
      → ∀ u ∈ cs.flatMap utf16, u.toNat < 2 ^ t.width)
    : ∃ result, (∃ n, ∀ rounds ≥ n, InflateUTF8StringHelper .Throw t kind src true rounds = some result)
      ∧ DeliversCodePoints kind src result := by
  obtain ⟨items, hscans⟩ := exists_scansAll kind hshort
  by_cases hgood : ∀ item ∈ items, item.isGood
  . obtain ⟨cs, hcs, heq, hcsUnits⟩ := hscans.1.codePoints hgood
    have hlt := hunits cs hcs heq
    rw [← hcsUnits t.replacement] at hlt
    obtain ⟨z, hrun, hholds⟩ := @helper_holds _ _ t _ .Throw hshort hscans (.inl hgood) hlt
      (ascii_of_isASCII hscans.1 (.inl hgood))
    rw [hcsUnits] at hholds
    exact ⟨.ok z, ⟨src.length + 1, hrun⟩, cs, hcs, heq, hholds⟩
  . obtain ⟨report, hrun⟩ := @helper_error kind src t items hscans hgood
    exact ⟨.error report, ⟨src.length + 1, hrun⟩, fun h => hgood (hscans.1.wellFormed_iff.mp h)⟩

theorem lossy_delivers {t : CharT} {errorAction : OnUTF8Error} (hshort : Short src)
    (haction : errorAction.replacement? = some t.replacement) (hscans : ScansAll kind src items)
    (hunits : ∀ u ∈ unitsOf t.replacement items, u.toNat < 2 ^ t.width)
    (hascii : isASCII (unitsOf t.replacement items) = true → ∀ b ∈ src, b.toNat < 0x80)
    : ∃ result, (∃ n, ∀ rounds ≥ n, InflateUTF8StringHelper errorAction t kind src true rounds = some result)
      ∧ ∃ z units, result = .ok z ∧ Decodes kind.Allows t.replacement src units ∧ z.Holds units := by
  obtain ⟨z, hrun, hholds⟩ := helper_holds hshort hscans (.inr haction) hunits hascii
  exact ⟨.ok z, ⟨src.length + 1, hrun⟩, z, _, rfl, hscans.1.decodes _, hholds⟩

theorem onlyLatin1_of_holds {replacement : BitVec 16} {units : List (BitVec 16)} {z : CharsZ}
    (hdecodes : Decodes IsScalarValue replacement src units) (hholds : z.Holds units) (hcharT : z.charT = .Latin1Char)
    : OnlyLatin1 src := by
  intro c hc hwithin
  by_contra hge
  obtain ⟨u, hu⟩ := exists_mem_of_ne_nil _ (@utf16_ne_nil c)
  have hlt := hholds.lt u (hdecodes.mem_units (fun c hc => hc.1) hc hwithin u hu)
  rw [hcharT] at hlt
  have := le_utf16_toNat (by decide) hc.1 (Nat.not_lt.mp hge) u hu
  change u.toNat < 256 at hlt
  omega

theorem Returns.unique {α : Type} {f : Nat → Option α} {a : α} (h : ∃ n, ∀ rounds ≥ n, f rounds = some a) (m : Nat)
    : ∃ rounds > m, f rounds = some a := by
  obtain ⟨n, h⟩ := h
  exact ⟨max n (m + 1), by omega, h _ (Nat.le_max_left _ _)⟩

theorem exact_iff_noSurrogatePair {inflation : Inflation} (hthrows : inflation.replacement? = none)
    (hdelivers : ∃ result, (∃ n, ∀ rounds ≥ n, inflation.inflate src true rounds = some result)
      ∧ DeliversCodePoints inflation.kind src result)
    : inflation.Exact src
      ↔ ∀ cs : List Nat, (∀ c ∈ cs, inflation.kind.Allows c) → src = cs.flatMap encode → NoSurrogatePair cs := by
  obtain ⟨result, hrun, hdelivers⟩ := hdelivers
  unfold Inflation.Exact Inflation.Delivers
  rw [hthrows]
  constructor
  . rintro ⟨result', ⟨n, hrun'⟩, hexact⟩ cs hcs heq
    obtain ⟨rounds, hrounds, hrun⟩ := Returns.unique hrun n
    obtain rfl : result' = result := Option.some.inj ((hrun' rounds (Nat.le_of_lt hrounds)).symm.trans hrun)
    cases result' with
    | error report => exact absurd ⟨cs, hcs, heq⟩ hdelivers
    | ok z =>
      obtain ⟨cs', ⟨hcs', hno, heq'⟩, -⟩ := hexact
      rwa [flatMap_encode_injective (fun c hc => hc.le) hcs hcs' (heq.symm.trans heq')]
  . intro h
    refine ⟨result, hrun, ?_⟩
    cases result with
    | error report => exact fun cs hencodes => hdelivers ⟨cs, hencodes.1, hencodes.2.2⟩
    | ok z =>
      obtain ⟨cs, hcs, heq, hholds⟩ := hdelivers
      exact ⟨cs, ⟨hcs, h cs hcs heq, heq⟩, hholds⟩

theorem noSurrogatePair_of_scalar {cs : List Nat} (hcs : ∀ c ∈ cs, IsScalarValue c) : NoSurrogatePair cs := by
  intro high low hmin hmax _ _ hwithin
  exact (hcs high (hwithin.subset mem_cons_self)).2 ⟨hmin, by omega⟩

theorem exact_of_utf8 {inflation : Inflation} (hthrows : inflation.replacement? = none) (hkind : inflation.kind = .UTF8Chars)
    (hdelivers : ∃ result, (∃ n, ∀ rounds ≥ n, inflation.inflate src true rounds = some result)
      ∧ DeliversCodePoints inflation.kind src result) : inflation.Exact src := by
  rw [exact_iff_noSurrogatePair hthrows hdelivers, hkind]
  exact fun cs hcs _ => noSurrogatePair_of_scalar hcs

theorem latin1_exact_iff (hshort : Short src)
    : Inflation.UTF8CharsToNewLatin1CharsZ.Exact src ↔ (WellFormed IsScalarValue src → OnlyLatin1 src) := by
  constructor
  . rintro ⟨result, hrun, hdelivers⟩ hwell
    obtain ⟨rounds, -, hrun⟩ := Returns.unique hrun 0
    cases result with
    | error report =>
      obtain ⟨cs, hcs, heq⟩ := hwell
      exact absurd ⟨hcs, noSurrogatePair_of_scalar hcs, heq⟩ (hdelivers cs)
    | ok z =>
      obtain ⟨cs, ⟨hcs, -, rfl⟩, hholds⟩ := hdelivers
      exact onlyLatin1_of_holds (decodes_flatMap 0 hcs) hholds (helper_charT hrun)
  . intro h
    apply exact_of_utf8 rfl rfl
    apply throw_delivers hshort
    rintro cs hcs rfl
    have honly := h ⟨cs, hcs, rfl⟩
    exact (decodes_flatMap 0 hcs).units_lt (by decide) honly (by decide)

theorem lossyLatin1_exact_iff (hshort : Short src)
    : Inflation.LossyUTF8CharsToNewLatin1CharsZ.Exact src ↔ OnlyLatin1 src
      ∧ ((∀ b ∈ src, b.toNat < 0x80) ∨ ∃ c, 0x80 ≤ c ∧ IsScalarValue c ∧ encode c <:+: src) := by
  obtain ⟨items, hscans⟩ := exists_scansAll .UTF8Chars hshort
  have hdecodes := hscans.1.decodes 0x3F
  have hle : ∀ c, IsScalarValue c → c ≤ 0x10FFFF := fun c hc => hc.1
  constructor
  . rintro ⟨result, hrun, z, units, rfl, hunits, hholds⟩
    obtain ⟨rounds, hrounds, hrun⟩ := Returns.unique hrun src.length
    refine ⟨onlyLatin1_of_holds hunits hholds (helper_charT hrun), ?_⟩
    by_contra hno
    rw [not_or] at hno
    obtain ⟨hnot, hnone⟩ := hno
    obtain ⟨pre, b, rest, hsrc, hpre, hb⟩ := exists_first_not_ascii hnot
    have hsmall : ∀ c, IsScalarValue c → encode c <:+: src → c < 0x80 := by
      intro c hc hwithin
      by_contra hge
      exact hnone ⟨c, Nat.not_lt.mp hge, hc, hwithin⟩
    have hall : isASCII (unitsOf 0x3F items) = true := by
      rw [isASCII_iff]
      exact hdecodes.units_lt (by decide) hsmall (by decide)
    have hbegins : ¬Begins IsScalarValue (b :: rest) := by
      rintro ⟨c, hc, hstart⟩
      have hlt := hsmall c hc (by
        rw [hsrc]
        exact hstart.isInfix.trans (suffix_append _ _).isInfix)
      rw [encode_of_ascii hlt, cons_prefix_cons] at hstart
      rw [← hstart.1, toNat_ofNat_byte (by omega)] at hb
      exact hb hlt
    have hsplit : ∀ us, Decodes IsScalarValue 0x3F src us → us[pre.length]? = some 0x3F := by
      intro us hus
      rw [hsrc] at hus
      obtain ⟨us', rfl, hus'⟩ := hus.ascii_append (fun c hc => @allows_of_ascii .UTF8Chars c hc) hle hpre
      obtain ⟨us'', rfl⟩ := hus'.head_of_not_begins hbegins
      rw [List.getElem?_append_right (by rw [length_map]), length_map, Nat.sub_self]
      rfl
    have hlen : pre.length < (unitsOf 0x3F items).length := (List.getElem?_eq_some_iff.mp (hsplit _ hdecodes)).1
    have hraw := @helper_raw _ _ .Latin1Char _ _ _ hshort hscans rfl hall hrounds _ _ _ hsrc hlen _ hrun units hholds
    rw [hsplit units hunits, Option.some.injEq] at hraw
    have htoNat := congrArg BitVec.toNat hraw
    rw [BitVec.toNat_setWidth, Nat.mod_eq_of_lt (Nat.lt_trans b.isLt (by decide))] at htoNat
    apply hb
    rw [← htoNat]
    decide
  . rintro ⟨honly, hascii⟩
    apply lossy_delivers hshort rfl hscans
    . exact hdecodes.units_lt (by decide) honly (by decide)
    intro hall
    rcases hascii with hascii | ⟨c, hge, hc, hwithin⟩
    . exact hascii
    rw [isASCII_iff] at hall
    obtain ⟨u, hu⟩ := exists_mem_of_ne_nil _ (@utf16_ne_nil c)
    have hlt := hall u (hdecodes.mem_units hle hc hwithin u hu)
    have := le_utf16_toNat (by decide) hc.1 hge u hu
    omega

theorem twoByte_exact (hshort : Short src) : Inflation.UTF8CharsToNewTwoByteCharsZ.Exact src :=
  exact_of_utf8 rfl rfl (throw_delivers hshort fun _ _ _ => units_lt_two_pow_sixteen)

theorem wtf8TwoByte_exact_iff (hshort : Short src)
    : Inflation.WTF8CharsToNewTwoByteCharsZ.Exact src ↔ OnlyLoneSurrogates src :=
  exact_iff_noSurrogatePair rfl (throw_delivers hshort fun _ _ _ => units_lt_two_pow_sixteen)

theorem lossyTwoByte_exact (hshort : Short src) : Inflation.LossyUTF8CharsToNewTwoByteCharsZ.Exact src := by
  obtain ⟨items, hscans⟩ := exists_scansAll .UTF8Chars hshort
  apply lossy_delivers hshort rfl hscans units_lt_two_pow_sixteen
  exact ascii_of_isASCII hscans.1 (.inr (by decide))

def SmallestEncoding.bound : SmallestEncoding → Nat
  | ASCII => 0x80
  | Latin1 => 0x100
  | UTF16 => 0x10000

theorem bound_update (encoding : SmallestEncoding) (c : BitVec 16)
    : c.toNat < (UpdateSmallestEncodingForChar c encoding).bound
      ∧ encoding.bound ≤ (UpdateSmallestEncodingForChar c encoding).bound := by
  unfold UpdateSmallestEncodingForChar SmallestEncoding.rank SmallestEncoding.bound
  cases encoding <;> (dsimp only; split_ifs <;> (dsimp only at *; omega))

theorem foldlM_getMetadata (units : List (BitVec 16)) (data : AtomizationData)
    : ∃ data', units.foldlM getMetadata data = some data' ∧ data'.outlen = data.outlen + units.length
      ∧ (∀ u ∈ units, u.toNat < data'.encoding.bound)
      ∧ ∀ u : BitVec 16, u.toNat < data.encoding.bound → u.toNat < data'.encoding.bound := by
  induction units generalizing data with
  | nil => exact ⟨data, rfl, rfl, nofun, fun _ h => h⟩
  | cons c units ih =>
    obtain ⟨data', hfold, hlen, hunits, hmono⟩ :=
      ih ⟨data.outlen + 1, UpdateSmallestEncodingForChar c data.encoding, AddToHash data.hashNum c⟩
    refine ⟨data', hfold, ?_, forall_mem_cons.mpr ⟨hmono c (bound_update _ c).1, hunits⟩, fun u hu => ?_⟩
    . rw [hlen, length_cons, Nat.add_right_comm, Nat.add_assoc]
    . exact hmono u (Nat.lt_of_lt_of_le hu (bound_update _ c).2)

theorem inflateForAtomization_delivers (hshort : Short src)
    : ∃ result, (∃ n, ∀ rounds ≥ n, (Inflation.inflateForAtomization kind).inflate src true rounds = some result)
      ∧ DeliversCodePoints kind src result := by
  obtain ⟨items, hscans⟩ := exists_scansAll kind hshort
  by_cases hgood : ∀ item ∈ items, item.isGood
  . obtain ⟨cs, hcs, heq, hcsUnits⟩ := hscans.1.codePoints hgood
    obtain ⟨data, hfold, hlen, hunits, -⟩ := foldlM_getMetadata (unitsOf 0 items) ⟨0, .ASCII, 0⟩
    rw [Nat.zero_add] at hlen
    have hdata : ∀ rounds > src.length, GetUTF8AtomizationData kind src rounds = some (.ok data) := by
      intro rounds hrounds
      unfold GetUTF8AtomizationData
      rw [hscans.2 _ _ getMetadata rounds _ hrounds, foldlM_flatMap_unitsOf (.inl hgood), hfold]
      rfl
    have hdecodes := hscans.1.decodes 0
    generalize ht : (if data.encoding = .UTF16 then CharT.char16_t else .Latin1Char) = t
    have hbound : data.encoding.bound ≤ 2 ^ t.width := by
      subst ht
      cases data.encoding <;> decide
    have hfits : ∀ u ∈ unitsOf 0 items, u.toNat < 2 ^ t.width := fun u hu => Nat.lt_of_lt_of_le (hunits u hu) hbound
    have hmake : ∃ z : CharsZ, (∀ rounds > src.length, MakeUTF8AtomHelper kind t src data rounds = some z)
        ∧ z.Holds (unitsOf 0 items) := by
      unfold MakeUTF8AtomHelper InflateUTF8CharsToBufferAndTerminate
      cases hencoding : decide (data.encoding = .ASCII) with
      | false =>
        refine ⟨⟨t, _, data.outlen⟩, fun rounds hrounds => ?_, holds_units hlen hfits⟩
        rw [hlen, copyAndInflate_units hscans hrounds (.inl hgood)]
        rfl
      | true =>
        have hall : isASCII (unitsOf 0 items) = true := by
          rw [isASCII_iff]
          intro u hu
          have := hunits u hu
          rw [of_decide_eq_true hencoding] at this
          exact this
        have hascii := ascii_of_isASCII hscans.1 (.inl hgood) hall
        have hbytes := hdecodes.of_ascii (fun c hc => allows_of_ascii hc) (fun c hc => hc.le) hascii
        have hlen' : data.outlen = src.length := by
          rw [hlen, hbytes, length_map]
        have happend := @write_append t (src.map fun c => some (c.setWidth t.width)) [] none 0
        rw [length_map] at happend
        have hcopy := @copyAndInflate_bytes kind src t
        have hholds := @holds_bytes src t _ hlen'
        rw [← hbytes] at hholds
        refine ⟨_, fun rounds hrounds => ?_, hholds⟩
        rw [hcopy hshort hrounds, hlen', if_pos (Nat.le_succ _), Nat.add_sub_cancel_left, replicate_one, happend]
        rfl
    obtain ⟨z, hrun, hholds⟩ := hmake
    rw [hcsUnits] at hholds
    refine ⟨.ok z, ⟨src.length + 1, fun rounds hrounds => ?_⟩, cs, hcs, heq, hholds⟩
    change inflateForAtomization kind src true rounds = _
    unfold inflateForAtomization
    rw [hdata rounds hrounds]
    simp [some_bind, ht, hrun rounds hrounds]
  . obtain ⟨report, hreport⟩ := @outputItems_throw _ items getMetadata (fun _ _ => rfl) hgood ⟨0, .ASCII, 0⟩
    refine ⟨.error report, ⟨src.length + 1, fun rounds hrounds => ?_⟩, fun h => hgood (hscans.1.wellFormed_iff.mp h)⟩
    change inflateForAtomization kind src true rounds = _
    unfold inflateForAtomization GetUTF8AtomizationData
    rw [hscans.2 _ _ getMetadata rounds _ hrounds, hreport]
    rfl

theorem inflateFrom_long {σ : Type} {errorAction : OnUTF8Error} {dst : σ → BitVec 16 → Option σ} {rounds i : Nat} {s s' : σ}
    (hlong : 2 ^ 32 ≤ src.length) (hi : i < 2 ^ 32) : inflateFrom errorAction kind src dst rounds i s ≠ some (.ok s') := by
  induction rounds generalizing i s with
  | zero => exact nofun
  | succ rounds ih =>
    unfold inflateFrom
    rw [if_pos (Nat.lt_of_lt_of_le hi hlong)]
    intro h
    simp only [bind_eq_some] at h
    obtain ⟨found, -, h⟩ := h
    have hoffset : ∀ n, addOffset i n < 2 ^ 32 := fun n => Nat.mod_lt _ (by decide)
    cases found with
    | units units n =>
      obtain ⟨s1, -, h⟩ := Option.bind_eq_some_iff.mp h
      exact ih (hoffset n) h
    | invalid report n =>
      cases errorAction with
      | Throw => cases h
      | Crash => cases h
      | InsertReplacementCharacter =>
        obtain ⟨s1, -, h⟩ := Option.bind_eq_some_iff.mp h
        exact ih (hoffset n) h
      | InsertQuestionMark =>
        obtain ⟨s1, -, h⟩ := Option.bind_eq_some_iff.mp h
        exact ih (hoffset n) h

theorem inflate_long {inflation : Inflation} {granted : Bool} {rounds : Nat} {z : CharsZ} (hlong : 2 ^ 32 ≤ src.length)
    : inflation.inflate src granted rounds ≠ some (.ok z) := by
  have hhelper : ∀ errorAction t kind, InflateUTF8StringHelper errorAction t kind src granted rounds ≠ some (.ok z) := by
    intro errorAction t kind h
    obtain ⟨result, hresult, h⟩ := Option.bind_eq_some_iff.mp h
    cases result with
    | error report => cases h
    | ok s => exact inflateFrom_long hlong (by decide) hresult
  cases inflation with
  | inflateForAtomization kind =>
    intro h
    obtain ⟨result, hresult, h⟩ := Option.bind_eq_some_iff.mp h
    cases result with
    | error report => cases h
    | ok data => exact inflateFrom_long hlong (by decide) hresult
  | _ => exact hhelper _ _ _

end Exact

end SpiderMonkey.CharacterEncoding
