import SpiderMonkey.Wasm.Impl.Sections
import SpiderMonkey.Wasm.VarInt

/-!
This module contains that decoding a module records each custom section once and in order: what sections there are in
the bytes, what each search of the decoder gives, and the theorem.
-/

namespace SpiderMonkey.Wasm

open ByteStream
open Overwrite

structure ModuleBytes where
  data : List (BitVec 8)
  stop : Nat
  offset : Nat
  inBounds : stop ≤ data.length
  fits : offset + stop < 2 ^ 32

variable {b : ModuleBytes} {pos pos' start size n : Nat}

def VarAt (b : ModuleBytes) (pos n start : Nat) : Prop :=
  ∃ v, Decoder.readVarU .bits32 ⟨b.data, pos, b.stop⟩ = some (v, ⟨b.data, start, b.stop⟩) ∧ v.toNat = n

theorem VarAt.lt (h : VarAt b pos n start) : pos < start ∧ start ≤ b.stop := by
  obtain ⟨v, hread, _⟩ := h
  obtain ⟨bytes, hencoding, _, _, hend⟩ := (Decoder.readVarU_eq_some_iff _ _ _ _ _ _).mp hread
  have hpos := List.length_pos_iff.mpr hencoding.terminated.ne_nil
  have hstop := hencoding.stop
  have heq : start = pos + bytes.length := congrArg Cursor.pos hend
  omega

theorem VarAt.value_lt (h : VarAt b pos n start) : n < 2 ^ 32 := by
  obtain ⟨v, _, rfl⟩ := h
  exact v.isLt

theorem VarAt.unique (h : VarAt b pos n start) (h' : VarAt b pos n' start')
    : n = n' ∧ start = start' := by
  obtain ⟨v, hread, rfl⟩ := h
  obtain ⟨v', hread', rfl⟩ := h'
  cases hread.symm.trans hread'
  exact ⟨rfl, rfl⟩

structure HeaderAt (b : ModuleBytes) (pos : Nat) (id : BitVec 8) (size start : Nat) : Prop where
  pos_lt : pos < b.stop
  id_eq : b.data[pos]? = some id
  size_at : VarAt b (pos + 1) size start

-- A custom section, with what is recorded for it: its name and its payload lie in it.
structure CustomAt (b : ModuleBytes) (pos size start : Nat) (sec : CustomSectionEnv) : Prop where
  header : HeaderAt b pos SectionId.Custom.toByte size start
  size_le : start + size ≤ b.stop
  offset_le : b.offset + start ≤ sec.nameOffset
  name_at : VarAt b start sec.nameLength (sec.nameOffset - b.offset)
  payload_eq : sec.payloadOffset = sec.nameOffset + sec.nameLength
  end_eq : sec.payloadOffset + sec.payloadLength = b.offset + start + size

inductive Section where
  | known (id : BitVec 8)
  | custom (sec : CustomSectionEnv)
deriving DecidableEq

inductive Sections (b : ModuleBytes) : Nat → List Section → Nat → Prop where
  | nil (pos : Nat) : Sections b pos [] pos
  | known {pos pos' size start : Nat} {id : BitVec 8} {secs : List Section} (hid : id ≠ SectionId.Custom.toByte)
      (header : HeaderAt b pos id size start) (size_le : start + size ≤ b.stop)
      (rest : Sections b (start + size) secs pos') : Sections b pos (.known id :: secs) pos'
  | custom {pos pos' size start : Nat} {sec : CustomSectionEnv} {secs : List Section}
      (sec_at : CustomAt b pos size start sec) (rest : Sections b (start + size) secs pos')
      : Sections b pos (.custom sec :: secs) pos'

def customs (secs : List Section) : List CustomSectionEnv :=
  secs.filterMap fun
    | .known _ => none
    | .custom sec => some sec

def Customs (b : ModuleBytes) (pos : Nat) (secs : List CustomSectionEnv) (pos' : Nat) : Prop :=
  Sections b pos (secs.map .custom) pos'

def NotNext (b : ModuleBytes) (id : SectionId) (pos : Nat) : Prop :=
  ∀ x, pos < b.stop → b.data[pos]? = some x → x ≠ id.toByte ∧ x ≠ SectionId.Custom.toByte

def NoCustomAt (b : ModuleBytes) (pos : Nat) : Prop :=
  ∀ size start sec, ¬CustomAt b pos size start sec

-- After custom sections that are passed there is the first byte of a section, but neither a custom section nor the one
-- that is looked for.
def Blocked (b : ModuleBytes) (id : SectionId) (P : CustomSectionEnv → Prop) (pos : Nat) : Prop :=
  ∃ secs pos', Customs b pos secs pos' ∧ (∀ sec ∈ secs, ¬P sec) ∧ NoCustomAt b pos' ∧ ¬NotNext b id pos'
    ∧ ∀ size start, ¬HeaderAt b pos' id.toByte size start ∨ id = .Custom

theorem HeaderAt.lt {id : BitVec 8} (h : HeaderAt b pos id size start) : pos + 1 < start ∧ start ≤ b.stop :=
  h.size_at.lt

theorem CustomAt.lt (h : CustomAt b pos size start sec) : pos + 1 < start + size :=
  Nat.lt_add_right _ h.header.lt.1

theorem Sections.append (h : Sections b pos secs pos')
    (h' : Sections b pos' secs' pos'') : Sections b pos (secs ++ secs') pos'' := by
  induction h with
  | nil => exact h'
  | known hid header size_le _ ih => exact .known hid header size_le (ih h')
  | custom sec_at _ ih => exact .custom sec_at (ih h')

theorem HeaderAt.unique {id id' : BitVec 8} (h : HeaderAt b pos id size start)
    (h' : HeaderAt b pos id' size' start') : id = id' ∧ size = size' ∧ start = start' :=
  ⟨Option.some_inj.mp (h.id_eq.symm.trans h'.id_eq), h.size_at.unique h'.size_at⟩

theorem CustomAt.unique (h : CustomAt b pos size start sec) (h' : CustomAt b pos size start sec') : sec = sec' := by
  obtain ⟨hlength, hoffset⟩ := h.name_at.unique h'.name_at
  have := h.offset_le
  have := h'.offset_le
  have := h.payload_eq
  have := h'.payload_eq
  have := h.end_eq
  have := h'.end_eq
  cases sec
  cases sec'
  simp only [CustomSectionEnv.mk.injEq] at *
  omega

theorem Sections.unique (h : Sections b pos secs b.stop) (h' : Sections b pos secs' b.stop) : secs = secs' := by
  generalize hend : b.stop = stop at h
  induction h generalizing secs' with
  | nil =>
    subst hend
    cases h' with
    | nil => rfl
    | known _ header => exact absurd header.pos_lt (Nat.lt_irrefl _)
    | custom sec_at => exact absurd sec_at.header.pos_lt (Nat.lt_irrefl _)
  | known hid header _ _ ih =>
    subst hend
    cases h' with
    | nil => exact absurd header.pos_lt (Nat.lt_irrefl _)
    | known _ header' _ rest =>
      obtain ⟨rfl, rfl, rfl⟩ := header.unique header'
      rw [ih rest rfl]
    | custom sec_at => exact absurd (header.unique sec_at.header).1 hid
  | custom sec_at _ ih =>
    subst hend
    cases h' with
    | nil => exact absurd sec_at.header.pos_lt (Nat.lt_irrefl _)
    | known hid header => exact absurd (sec_at.header.unique header).1.symm hid
    | custom sec_at' rest =>
      obtain ⟨_, rfl, rfl⟩ := sec_at.header.unique sec_at'.header
      rw [sec_at.unique sec_at', ih rest rfl]

theorem NotNext.noCustomAt {id : SectionId} (h : NotNext b id pos) : NoCustomAt b pos :=
  fun _ _ _ hat => (h _ hat.header.pos_lt hat.header.id_eq).2 rfl

theorem HeaderAt.noCustomAt {id : BitVec 8} (hid : id ≠ SectionId.Custom.toByte) (h : HeaderAt b pos id size start)
    : NoCustomAt b pos :=
  fun _ _ _ hat => hid (h.unique hat.header).1

theorem HeaderAt.not_notNext {id : SectionId} (h : HeaderAt b pos id.toByte size start) : ¬NotNext b id pos :=
  fun hnot => (hnot _ h.pos_lt h.id_eq).1 rfl

theorem Blocked.cons {id : SectionId} {P : CustomSectionEnv → Prop} (hat : CustomAt b pos size start sec) (hsec : ¬P sec)
    (h : Blocked b id P (start + size)) : Blocked b id P pos := by
  obtain ⟨secs, pos', hcustoms, hsecs, hrest⟩ := h
  exact ⟨sec :: secs, pos', .custom hat hcustoms, List.forall_mem_cons.mpr ⟨hsec, hsecs⟩, hrest⟩

-- The custom sections before the first place with a property, or without a custom section, are the same ones.
theorem Customs.unique {P : CustomSectionEnv → Prop} (h : Customs b pos secs pos') (hsecs : ∀ sec ∈ secs, ¬P sec)
    (hend : ∀ size start sec, CustomAt b pos' size start sec → P sec) (h' : Customs b pos secs' pos'')
    (hsecs' : ∀ sec ∈ secs', ¬P sec) (hend' : ∀ size start sec, CustomAt b pos'' size start sec → P sec)
    : pos' = pos'' := by
  induction secs generalizing pos secs' with
  | nil =>
    cases h
    cases secs' with
    | nil =>
      cases h'
      rfl
    | cons sec' secs' =>
      cases h' with
      | custom hat' _ => exact absurd (hend _ _ _ hat') (hsecs' sec' List.mem_cons_self)
  | cons sec secs ih =>
    cases h with
    | custom hat hrest =>
      cases secs' with
      | nil =>
        cases h'
        exact absurd (hend' _ _ _ hat) (hsecs sec List.mem_cons_self)
      | cons sec' secs' =>
        cases h' with
        | custom hat' hrest' =>
          obtain ⟨_, rfl, rfl⟩ := hat.header.unique hat'.header
          exact ih hrest (List.forall_mem_cons.mp hsecs).2 hrest' (List.forall_mem_cons.mp hsecs').2

namespace Decoder

-- The computation stays in the bytes and ends, the result is as said, and it fails only where that is said.
def Meets {α : Type} (o : Outcome α) (Q : α → Prop) (fails : Prop) : Prop :=
  match o with
  | none => False
  | some (.error _) => fails
  | some (.ok a) => Q a

theorem Meets.mono {α : Type} {o : Outcome α} {Q Q' : α → Prop} {fails fails' : Prop} (h : Meets o Q fails)
    (hmono : ∀ a, Q a → Q' a) (hfails : fails → fails') : Meets o Q' fails' := by
  rcases o with _ | _ | a
  . exact h
  . exact hfails h
  . exact hmono a h

theorem Meets.exists_ok {α : Type} {o : Outcome α} {Q : α → Prop} {fails : Prop} (h : Meets o Q fails) (hnot : ¬fails)
    : ∃ a, o = some (.ok a) ∧ Q a := by
  rcases o with _ | _ | a
  . exact h.elim
  . exact absurd h hnot
  . exact ⟨a, rfl, h⟩

structure IsAt (b : ModuleBytes) (d : Decoder) (pos : Nat) : Prop where
  cur : d.cur = ⟨b.data, pos, b.stop⟩
  offsetInModule : d.offsetInModule = b.offset
  pos_le : pos ≤ b.stop
  resilientMode : d.resilientMode = false

variable {env : CustomSectionEnvVector} {d : Decoder}

theorem IsAt.bytesRemain (h : IsAt b d pos) : d.bytesRemain = b.stop - pos := by
  unfold Decoder.bytesRemain
  rw [h.cur]

theorem IsAt.currentOffset (h : IsAt b d pos) : toUint32 d.currentOffset = b.offset + pos := by
  have := b.fits
  have := h.pos_le
  unfold Decoder.currentOffset toUint32
  rw [h.cur, h.offsetInModule]
  exact Nat.mod_eq_of_lt (show b.offset + pos < _ by omega)

theorem IsAt.rollbackPosition (h : IsAt b d pos) (hle : pos' ≤ b.stop) : IsAt b (d.rollbackPosition pos') pos' where
  cur := by
    unfold Decoder.rollbackPosition
    rw [h.cur]
  offsetInModule := h.offsetInModule
  pos_le := hle
  resilientMode := h.resilientMode

theorem IsAt.readFixedU8 (h : IsAt b d pos)
    : d.read readFixedU8 = none ∧ pos = b.stop
      ∨ ∃ x d', d.read readFixedU8 = some (x, d') ∧ pos < b.stop ∧ b.data[pos]? = some x ∧ IsAt b d' (pos + 1) := by
  have hin := b.inBounds
  unfold read Decoder.readFixedU8 byte
  rw [h.cur]
  dsimp only
  by_cases hlt : pos < b.stop
  . have hget : b.data[pos]? = some (b.data.get ⟨pos, by omega⟩) := List.getElem?_eq_getElem _
    right
    rw [if_pos hlt, hget]
    exact ⟨_, _, rfl, hlt, rfl, rfl, h.offsetInModule, hlt, h.resilientMode⟩
  . have := h.pos_le
    rw [if_neg hlt]
    exact .inl ⟨rfl, by omega⟩

theorem IsAt.readVarU32 (h : IsAt b d pos)
    : d.read (readVarU .bits32) = none ∧ (∀ n start, ¬VarAt b pos n start)
      ∨ ∃ v start d', d.read (readVarU .bits32) = some (v, d') ∧ VarAt b pos v.toNat start ∧ IsAt b d' start := by
  unfold read
  rw [h.cur]
  rcases hread : readVarU .bits32 ⟨b.data, pos, b.stop⟩ with _ | ⟨v, c⟩
  . refine .inl ⟨rfl, ?_⟩
    rintro n start ⟨v, hread', _⟩
    cases hread.symm.trans hread'
  obtain ⟨bytes, _, _, _, rfl⟩ := (readVarU_eq_some_iff _ _ _ _ _ _).mp hread
  have hvar : VarAt b pos v.toNat (pos + bytes.length) := ⟨v, hread, rfl⟩
  exact .inr ⟨v, _, _, rfl, hvar, rfl, h.offsetInModule, hvar.lt.2, h.resilientMode⟩

theorem take_append_length (h : env' = env ++ secs)
    : env'.take env.length = env := by
  rw [h, List.take_left]

def Skips (b : ModuleBytes) (env : CustomSectionEnvVector) (pos : Nat) (r : CustomSectionEnvVector × Decoder) : Prop :=
  ∃ size start sec, CustomAt b pos size start sec ∧ r.1 = env ++ [sec]
    ∧ IsAt b r.2 (start + size)

def SkipsWith (b : ModuleBytes) (id : SectionId)
    (skip : CustomSectionEnvVector → Decoder → Outcome (CustomSectionEnvVector × Decoder)) : Prop :=
  id = .Custom ∨ ∀ env d pos, IsAt b d pos → Meets (skip env d) (Skips b env pos) (NoCustomAt b pos)

theorem startSectionFrom_meets {skip : CustomSectionEnvVector → Decoder → Outcome (CustomSectionEnvVector × Decoder)}
    {id : SectionId} {P : CustomSectionEnv → Prop} (hP : id ≠ .Custom → ∀ sec, ¬P sec) (hskip : SkipsWith b id skip)
    {rounds : Nat} (hrounds : b.stop - pos < rounds) (env : CustomSectionEnvVector) (h : IsAt b d pos)
    : Meets (startSectionFrom skip id rounds env d) (fun r => ∃ secs pos', Customs b pos secs pos' ∧ r.2.1 = env ++ secs
        ∧ (id = .Custom → secs = [])
        ∧ (r.1 = true → pos' < b.stop ∧ b.data[pos']? = some id.toByte ∧ IsAt b r.2.2 (pos' + 1))
        ∧ (r.1 = false → NotNext b id pos' ∧ ∃ p, IsAt b r.2.2 p)) (Blocked b id P pos) := by
  induction rounds generalizing pos env d with
  | zero => omega
  | succ rounds ih =>
    unfold startSectionFrom
    rcases h.readFixedU8 with ⟨hread, hend⟩ | ⟨x, d', hread, hlt, hx, hd'⟩
    . rw [hread]
      refine ⟨[], pos, .nil pos, (List.append_nil _).symm, fun _ => rfl, nofun, fun _ => ⟨?_, pos, h⟩⟩
      intro x hlt
      omega
    rw [hread]
    dsimp only
    by_cases hid : x = id.toByte
    . rw [if_pos hid]
      exact ⟨[], pos, .nil pos, (List.append_nil _).symm, fun _ => rfl, fun _ => ⟨hlt, hid ▸ hx, hd'⟩, nofun⟩
    rw [if_neg hid]
    by_cases hcustom : x = SectionId.Custom.toByte
    case neg =>
      rw [if_pos hcustom]
      refine ⟨[], pos, .nil pos, (List.append_nil _).symm, fun _ => rfl, nofun, fun _ => ⟨?_, pos + 1, hd'⟩⟩
      intro y _ hy
      cases hx.symm.trans hy
      exact ⟨hid, hcustom⟩
    rw [if_neg (not_not.mpr hcustom)]
    have hne : id ≠ .Custom := fun heq => hid (heq ▸ hcustom)
    have hskips := hskip.resolve_left hne env d pos h
    rcases hrun : skip env d with _ | msg | ⟨env', d''⟩
    . rw [hrun] at hskips
      exact hskips
    . rw [hrun] at hskips
      exact ⟨[], pos, .nil pos, nofun, hskips, fun hnot => (hnot x hlt hx).2 hcustom,
        fun _ _ => .inl fun header => hid (Option.some_inj.mp (hx.symm.trans header.id_eq))⟩
    rw [hrun] at hskips
    obtain ⟨size, start, sec, hat, henv, hd''⟩ := hskips
    have := hat.lt
    have := hd''.pos_le
    apply (ih (by omega) env' hd'').mono ?_ (Blocked.cons hat (hP hne sec))
    rintro r ⟨secs, pos', hcustoms, hsecs, _, hfound, hnot⟩
    refine ⟨sec :: secs, pos', .custom hat hcustoms, ?_, fun heq => absurd heq hne, hfound, hnot⟩
    rw [hsecs, show env' = env ++ [sec] from henv, List.append_assoc]
    rfl

inductive Starts (b : ModuleBytes) (id : SectionId) (env : CustomSectionEnvVector) (pos : Nat)
    : Option SectionRange × CustomSectionEnvVector × Decoder → Prop where
  | absent {d : Decoder} (secs : List CustomSectionEnv) (pos' : Nat) (skipped : Customs b pos secs pos')
      (notNext : NotNext b id pos') (isAt : IsAt b d pos) (of_custom : id = .Custom → secs = [])
      : Starts b id env pos (none, env, d)
  | present {env' : CustomSectionEnvVector} {d : Decoder} (secs : List CustomSectionEnv) (pos' size start : Nat)
      (skipped : Customs b pos secs pos') (header : HeaderAt b pos' id.toByte size start)
      (recorded : env' = env ++ secs) (isAt : IsAt b d start)
      (of_custom : id = .Custom → secs = [])
      : Starts b id env pos (some ⟨b.offset + start, size⟩, env', d)

theorem startSectionWith_meets {skip : CustomSectionEnvVector → Decoder → Outcome (CustomSectionEnvVector × Decoder)}
    {id : SectionId} {P : CustomSectionEnv → Prop} (hP : id ≠ .Custom → ∀ sec, ¬P sec) (hskip : SkipsWith b id skip)
    (sectionName : String) (env : CustomSectionEnvVector) (h : IsAt b d pos)
    : Meets (startSectionWith skip id sectionName env d) (Starts b id env pos) (Blocked b id P pos) := by
  have hfrom := startSectionFrom_meets hP hskip (Nat.lt_succ_self (b.stop - pos)) env h
  have hpos : d.cur.pos = pos := by rw [h.cur]
  unfold startSectionWith
  rw [h.bytesRemain]
  rcases hrun : startSectionFrom skip id (b.stop - pos + 1) env d with _ | msg | ⟨_ | _, env', d'⟩
  . rw [hrun] at hfrom
    exact hfrom
  . rw [hrun] at hfrom
    exact hfrom
  . rw [hrun] at hfrom
    obtain ⟨secs, pos', hcustoms, hsecs, hcustom, _, hnot⟩ := hfrom
    obtain ⟨hnotNext, p, hd'⟩ := hnot rfl
    dsimp only
    rw [take_append_length hsecs, hpos]
    exact .absent secs pos' hcustoms hnotNext (hd'.rollbackPosition h.pos_le) hcustom
  rw [hrun] at hfrom
  obtain ⟨secs, pos', hcustoms, hsecs, hcustom, hfound, _⟩ := hfrom
  obtain ⟨hlt, hid, hd'⟩ := hfound rfl
  dsimp only
  rcases hd'.readVarU32 with ⟨hread, hnone⟩ | ⟨v, start, d'', hread, hvar, hd''⟩
  . rw [hread]
    refine ⟨secs, pos', hcustoms, ?_, fun _ start _ hat => hnone _ start hat.header.size_at,
      fun hnot => (hnot _ hlt hid).1 rfl, fun _ start => .inl fun header => hnone _ start header.size_at⟩
    by_cases hne : id = .Custom
    . rw [hcustom hne]
      exact nofun
    . exact fun sec _ => hP hne sec
  rw [hread]
  dsimp only
  rw [hd''.currentOffset]
  exact .present secs pos' v.toNat start hcustoms ⟨hlt, hid, hvar⟩ hsecs hd'' hcustom

theorem startAnyCustomSection_meets (P : CustomSectionEnv → Prop) (env : CustomSectionEnvVector) (h : IsAt b d pos)
    : Meets (startAnyCustomSection env d) (Starts b .Custom env pos) (Blocked b .Custom P pos) :=
  startSectionWith_meets (absurd rfl) (.inl rfl) "custom" env h

def nameOf (b : ModuleBytes) (sec : CustomSectionEnv) : List (BitVec 8) :=
  slice b.data (sec.nameOffset - b.offset) sec.nameLength

def Named (b : ModuleBytes) (expected : Option (List (BitVec 8))) (sec : CustomSectionEnv) : Prop :=
  ∀ name ∈ expected, nameOf b sec = name

theorem named_iff
    : (expected.all fun name => decide (name = nameOf b sec)) = true ↔ Named b expected sec := by
  unfold Named
  cases expected with
  | none => simp
  | some name => simp [eq_comm]

def entryAt (b : ModuleBytes) (start size nameStart n : Nat) : CustomSectionEnv :=
  ⟨b.offset + nameStart, n, b.offset + nameStart + n, b.offset + start + size - (b.offset + nameStart + n)⟩

theorem customAt_entryAt (header : HeaderAt b pos SectionId.Custom.toByte size start)
    (size_le : start + size ≤ b.stop) (hvar : VarAt b start n nameStart)
    (hbounds : b.offset + nameStart + n ≤ b.offset + start + size)
    : CustomAt b pos size start (entryAt b start size nameStart n) where
  header := header
  size_le := size_le
  offset_le := Nat.add_le_add_left (Nat.le_of_lt hvar.lt.1) _
  name_at := by
    unfold entryAt
    rw [Nat.add_sub_cancel_left]
    exact hvar
  payload_eq := rfl
  end_eq := Nat.add_sub_cancel' hbounds

theorem nameOf_entryAt : nameOf b (entryAt b start size nameStart n) = slice b.data nameStart n := by
  unfold nameOf entryAt
  rw [Nat.add_sub_cancel_left]

theorem IsAt.skipAndFinishCustomSection (h : IsAt b d pos) (hle : start + size ≤ b.stop)
    : ∃ d', d.skipAndFinishCustomSection ⟨b.offset + start, size⟩ = some d' ∧ IsAt b d' (start + size) := by
  have hfits := b.fits
  have hsub : sizeSub (b.offset + start) d.offsetInModule = start := by
    unfold sizeSub
    rw [h.offsetInModule]
    omega
  have hstop : d.cur.stop = b.stop := by rw [h.cur]
  unfold Decoder.skipAndFinishCustomSection
  dsimp only
  rw [hsub, hstop, if_pos hle]
  have hat := h.rollbackPosition hle
  exact ⟨_, rfl, hat.cur, hat.offsetInModule, hat.pos_le, hat.resilientMode⟩

inductive StartsCustom (b : ModuleBytes) (expected : Option (List (BitVec 8))) (env : CustomSectionEnvVector) (pos : Nat)
    : Option SectionRange × CustomSectionEnvVector × Decoder → Prop where
  | absent {env' : CustomSectionEnvVector} {d : Decoder} (secs : List CustomSectionEnv) (pos' : Nat)
      (skipped : Customs b pos secs pos') (unnamed : ∀ sec ∈ secs, ¬Named b expected sec)
      (notNext : NotNext b .Custom pos') (recorded : env' = env ++ secs)
      (isAt : IsAt b d pos') : StartsCustom b expected env pos (none, env', d)
  | present {env' : CustomSectionEnvVector} {d : Decoder} (secs : List CustomSectionEnv) (sec : CustomSectionEnv)
      (pos' size start : Nat) (skipped : Customs b pos secs pos') (unnamed : ∀ sec ∈ secs, ¬Named b expected sec)
      (sec_at : CustomAt b pos' size start sec) (named : Named b expected sec)
      (recorded : env' = env ++ (secs ++ [sec]))
      (isAt : IsAt b d (sec.nameOffset - b.offset + sec.nameLength))
      : StartsCustom b expected env pos (some ⟨b.offset + start, size⟩, env', d)

theorem StartsCustom.cons (hat : CustomAt b pos size start sec)
    (hnot : ¬Named b expected sec) (henv : env' = env ++ [sec])
    (h : StartsCustom b expected env' (start + size) r) : StartsCustom b expected env pos r := by
  cases h with
  | absent secs pos' skipped unnamed notNext recorded isAt =>
    refine .absent (sec :: secs) pos' (.custom hat skipped) (List.forall_mem_cons.mpr ⟨hnot, unnamed⟩) notNext ?_ isAt
    rw [recorded, henv, List.append_assoc]
    rfl
  | present secs sec' pos' size' start' skipped unnamed sec_at named recorded isAt =>
    refine .present (sec :: secs) sec' pos' size' start' (.custom hat skipped)
      (List.forall_mem_cons.mpr ⟨hnot, unnamed⟩) sec_at named ?_ isAt
    rw [recorded, henv, List.append_assoc]
    rfl

theorem startCustomSectionFrom_meets (expected : Option (List (BitVec 8))) {rounds : Nat}
    (hrounds : b.stop - pos < rounds) (env : CustomSectionEnvVector) (h : IsAt b d pos)
    : Meets (startCustomSectionFrom expected rounds env d) (StartsCustom b expected env pos)
        (Blocked b .Custom (Named b expected) pos) := by
  have hfits := b.fits
  induction rounds generalizing pos env d with
  | zero => omega
  | succ rounds ih =>
    have hany := startAnyCustomSection_meets (Named b expected) env h
    unfold startCustomSectionFrom
    rcases hrun : startAnyCustomSection env d with _ | msg | r
    . rw [hrun] at hany
      exact hany
    . rw [hrun] at hany
      exact hany
    rw [hrun] at hany
    cases hany with
    | absent secs pos' skipped notNext isAt of_custom =>
      obtain rfl := of_custom rfl
      cases skipped
      exact .absent [] pos (.nil pos) nofun notNext (List.append_nil _).symm isAt
    | @present env' d₁ secs pos' size start skipped header recorded isAt of_custom =>
      obtain rfl := of_custom rfl
      cases skipped
      rw [List.append_nil] at recorded
      -- Each test fails for bytes that are no custom section.
      have hfails (hno : ∀ sec, CustomAt b pos size start sec → False) : Blocked b .Custom (Named b expected) pos := by
        refine ⟨[], pos, .nil pos, nofun, ?_, header.not_notNext, fun _ _ => .inr rfl⟩
        intro size' start' sec hat
        obtain ⟨_, rfl, rfl⟩ := header.unique hat.header
        exact hno sec hat
      dsimp only
      rw [isAt.bytesRemain]
      by_cases hsize : b.stop - start < size
      . rw [if_pos hsize]
        refine hfails fun sec hat => ?_
        have := hat.size_le
        omega
      rw [if_neg hsize]
      have hsizeLe : start + size ≤ b.stop := by
        have := isAt.pos_le
        omega
      rcases isAt.readVarU32 with ⟨hread, hnone⟩ | ⟨v, nameStart, d₂, hread, hvar, hd₂⟩
      . rw [hread]
        exact hfails fun sec hat => hnone _ _ hat.name_at
      rw [hread]
      dsimp only
      have hstart := hvar.lt.1
      rw [hd₂.bytesRemain]
      have hfits' (sec : CustomSectionEnv) (hat : CustomAt b pos size start sec) : nameStart + v.toNat ≤ start + size := by
        obtain ⟨hlength, hoffset⟩ := hat.name_at.unique hvar
        have := hat.offset_le
        have := hat.payload_eq
        have := hat.end_eq
        omega
      by_cases hlength : v.toNat > b.stop - nameStart
      . rw [if_pos hlength]
        refine hfails fun sec hat => ?_
        have := hfits' sec hat
        omega
      have hnameLe : nameStart + v.toNat ≤ b.stop := by
        have := hd₂.pos_le
        omega
      have hpayload : toUint32 (b.offset + nameStart + v.toNat) = b.offset + nameStart + v.toNat :=
        Nat.mod_eq_of_lt (by omega)
      have hend : toUint32 (b.offset + start + size) = b.offset + start + size := Nat.mod_eq_of_lt (by omega)
      rw [if_neg hlength, hd₂.currentOffset, hpayload, hend]
      by_cases hbounds : b.offset + nameStart + v.toNat > b.offset + start + size
      . rw [if_pos hbounds]
        refine hfails fun sec hat => ?_
        have := hfits' sec hat
        omega
      rw [if_neg hbounds]
      have hstop : d₂.cur.stop = b.stop := by rw [hd₂.cur]
      have hpos : d₂.cur.pos = nameStart := by rw [hd₂.cur]
      have hbytes : d₂.bytes v.toNat = some (slice b.data nameStart v.toNat) := by
        unfold bytes
        rw [hd₂.cur]
        exact if_pos hnameLe
      have hadvance : d₂.advance v.toNat = some (d₂.rollbackPosition (nameStart + v.toNat)) := by
        unfold advance
        rw [hstop, hpos, if_pos hnameLe]
      rw [hbytes, hadvance]
      dsimp only
      have hat := customAt_entryAt header hsizeLe hvar (Nat.le_of_not_lt hbounds)
      have hnamed : (expected.all fun name => decide (name = slice b.data nameStart v.toNat)) = true
          ↔ Named b expected (entryAt b start size nameStart v.toNat) := by
        rw [← named_iff, nameOf_entryAt]
      have hrecorded (sec : CustomSectionEnv)
          : env' ++ [sec] = env ++ [sec] := congrArg (· ++ [sec]) recorded
      split
      next hall =>
        refine .present [] _ pos size start (.nil pos) nofun hat (hnamed.mp hall) (hrecorded _) ?_
        have hend := hd₂.rollbackPosition hnameLe
        unfold entryAt
        rw [Nat.add_sub_cancel_left]
        exact hend
      next hall =>
        obtain ⟨d₃, hskip, hd₃⟩ := hd₂.skipAndFinishCustomSection hsizeLe
        rw [hskip]
        dsimp only
        have := hat.lt
        apply (ih (by omega) _ hd₃).mono ?_ (Blocked.cons hat (mt hnamed.mpr hall))
        intro r hr
        exact hr.cons hat (mt hnamed.mpr hall) (hrecorded _)

inductive StartsCustomSection (b : ModuleBytes) (expected : Option (List (BitVec 8))) (env : CustomSectionEnvVector)
    (pos : Nat) : Option SectionRange × CustomSectionEnvVector × Decoder → Prop where
  | absent {d : Decoder} (secs : List CustomSectionEnv) (pos' : Nat)
      (skipped : Customs b pos secs pos') (unnamed : ∀ sec ∈ secs, ¬Named b expected sec)
      (notNext : NotNext b .Custom pos') (isAt : IsAt b d pos) : StartsCustomSection b expected env pos (none, env, d)
  | present {range : SectionRange} {env' : CustomSectionEnvVector} {d : Decoder}
      (starts : StartsCustom b expected env pos (some range, env', d))
      : StartsCustomSection b expected env pos (some range, env', d)

theorem startCustomSection_meets (expected : Option (List (BitVec 8))) (env : CustomSectionEnvVector) (h : IsAt b d pos)
    : Meets (startCustomSection expected env d) (StartsCustomSection b expected env pos)
        (Blocked b .Custom (Named b expected) pos) := by
  have hfrom := startCustomSectionFrom_meets expected (Nat.lt_succ_self (b.stop - pos)) env h
  have hpos : d.cur.pos = pos := by rw [h.cur]
  unfold startCustomSection
  rw [h.bytesRemain]
  rcases hrun : startCustomSectionFrom expected (b.stop - pos + 1) env d with _ | msg | ⟨_ | range, env', d'⟩
  . rw [hrun] at hfrom
    exact hfrom
  . rw [hrun] at hfrom
    exact hfrom
  . rw [hrun] at hfrom
    cases hfrom with
    | absent secs pos' skipped unnamed notNext recorded isAt =>
      dsimp only
      rw [take_append_length recorded, hpos]
      exact .absent secs pos' skipped unnamed notNext (isAt.rollbackPosition h.pos_le)
  . rw [hrun] at hfrom
    exact .present hfrom

theorem skipCustomSection_meets (env : CustomSectionEnvVector) (h : IsAt b d pos)
    : Meets (skipCustomSection env d) (Skips b env pos) (NoCustomAt b pos) := by
  have hstart := startCustomSection_meets none env h
  have hfirst {secs : List CustomSectionEnv} {pos' : Nat} (skipped : Customs b pos secs pos')
      (hunnamed : ∀ sec ∈ secs, ¬Named b none sec) : pos = pos' := by
    cases secs with
    | nil =>
      cases skipped
      rfl
    | cons sec secs => exact absurd nofun (hunnamed sec List.mem_cons_self)
  unfold skipCustomSection
  rcases hrun : startCustomSection none env d with _ | msg | ⟨_ | range, env', d'⟩
  . rw [hrun] at hstart
    exact hstart
  . rw [hrun] at hstart
    obtain ⟨secs, pos', skipped, hunnamed, hno, _⟩ := hstart
    rwa [hfirst skipped hunnamed]
  . rw [hrun] at hstart
    cases hstart with
    | absent secs pos' skipped unnamed notNext =>
      rw [hfirst skipped unnamed]
      exact notNext.noCustomAt
  rw [hrun] at hstart
  cases hstart with
  | present starts =>
    cases starts with
    | present secs sec pos' size start skipped unnamed sec_at named recorded isAt =>
      obtain ⟨d'', hskip, hd''⟩ := isAt.skipAndFinishCustomSection sec_at.size_le
      dsimp only
      rw [hskip]
      cases secs with
      | cons sec' _ => exact absurd nofun (unnamed sec' List.mem_cons_self)
      | nil =>
        cases skipped
        exact ⟨size, start, sec, sec_at, recorded, hd''⟩

theorem startSection_meets (id : SectionId) (sectionName : String) (env : CustomSectionEnvVector) (h : IsAt b d pos)
    : Meets (startSection id sectionName env d) (Starts b id env pos) (Blocked b id (fun _ => False) pos) :=
  startSectionWith_meets (fun _ _ hfalse => hfalse) (.inr fun env _ _ => skipCustomSection_meets env) sectionName env h

end Decoder

open Decoder

variable {b : ModuleBytes} {pos : Nat} {env : CustomSectionEnvVector} {d : Decoder}

def Passes (b : ModuleBytes) (env : CustomSectionEnvVector) (pos : Nat) (r : CustomSectionEnvVector × Decoder) : Prop :=
  ∃ secs pos', Sections b pos secs pos' ∧ r.1 = env ++ customs secs ∧ IsAt b r.2 pos'

def DecodeStep.id : DecodeStep → SectionId
  | «section» id _ _ _ => id
  | customSection _ _ _ => .Custom

def DecodeStep.Named (b : ModuleBytes) : DecodeStep → CustomSectionEnv → Prop
  | «section» _ _ _ _ => fun _ => False
  | customSection _ expected _ => Decoder.Named b (some expected)

-- The known sections stand in the order of the steps, what decodes the contents of one ends where it ends, and all
-- custom sections are well formed.
inductive Accepts (b : ModuleBytes) : List DecodeStep → Nat → Prop where
  | nil {pos : Nat} {secs : List CustomSectionEnv} (passed : Customs b pos secs b.stop) : Accepts b [] pos
  | absent {pos pos' : Nat} {secs : List CustomSectionEnv} {step : DecodeStep} {steps : List DecodeStep}
      (skipped : Customs b pos secs pos') (unnamed : ∀ sec ∈ secs, ¬step.Named b sec) (notNext : NotNext b step.id pos')
      (rest : Accepts b steps pos) : Accepts b (step :: steps) pos
  | «section» {pos pos' size start : Nat} {secs : List CustomSectionEnv} {id : SectionId} {known : id ≠ .Custom}
      {sectionName : String} {body : SectionBody} {steps : List DecodeStep} (skipped : Customs b pos secs pos')
      (header : HeaderAt b pos' id.toByte size start) (ends : ∀ d, IsAt b d start → body.run d = .ok (start + size))
      (rest : Accepts b steps (start + size)) : Accepts b (.section id known sectionName body :: steps) pos
  | customSection {pos pos' size start : Nat} {secs : List CustomSectionEnv} {sec : CustomSectionEnv}
      {sectionName : String} {expected : List (BitVec 8)} {body : CustomSectionBody} {steps : List DecodeStep}
      (skipped : Customs b pos secs pos') (unnamed : ∀ sec ∈ secs, ¬Decoder.Named b (some expected) sec)
      (sec_at : CustomAt b pos' size start sec) (named : Decoder.Named b (some expected) sec)
      (rest : Accepts b steps (start + size)) : Accepts b (.customSection sectionName expected body :: steps) pos

def Advances (b : ModuleBytes) (step : DecodeStep) (env : CustomSectionEnvVector) (pos : Nat)
    (r : CustomSectionEnvVector × Decoder) : Prop :=
  ∃ secs pos', Sections b pos secs pos' ∧ r.1 = env ++ customs secs ∧ IsAt b r.2 pos'
    ∧ ∀ steps, Accepts b (step :: steps) pos → Accepts b steps pos'

theorem customs_append (secs secs' : List Section) : customs (secs ++ secs') = customs secs ++ customs secs' :=
  List.filterMap_append

theorem customs_map_custom (secs : List CustomSectionEnv) : customs (secs.map .custom) = secs := by
  unfold customs
  rw [List.filterMap_map]
  exact List.filterMap_some

theorem IsAt.finishSection_iff {start size p : Nat} (h : IsAt b d p) (sectionName : String) (hstart : start ≤ b.stop)
    (hsize : size < 2 ^ 32) : d.finishSection ⟨b.offset + start, size⟩ sectionName = .ok () ↔ p = start + size := by
  have hfits := b.fits
  have hle := h.pos_le
  unfold Decoder.finishSection
  rw [h.resilientMode, if_neg (by decide)]
  split
  next heq =>
    unfold sizeSub currentOffset at heq
    rw [h.cur, h.offsetInModule] at heq
    dsimp only at heq
    exact ⟨nofun, fun hp => by omega⟩
  next heq =>
    unfold sizeSub currentOffset at heq
    rw [h.cur, h.offsetInModule, not_not] at heq
    dsimp only at heq
    exact ⟨fun _ => by omega, fun _ => rfl⟩

theorem Customs.unique_of_noCustomAt {pos pos' pos'' : Nat} {secs secs' : List CustomSectionEnv}
    (h : Customs b pos secs pos') (hno : NoCustomAt b pos') (h' : Customs b pos secs' pos'') (hno' : NoCustomAt b pos'')
    : pos' = pos'' :=
  h.unique (P := fun _ => False) (fun _ _ hfalse => hfalse) hno h' (fun _ _ hfalse => hfalse) hno'

theorem decodeSection_meets {id : SectionId} (known : id ≠ .Custom) (sectionName : String) (body : SectionBody)
    (env : CustomSectionEnvVector) (h : IsAt b d pos)
    : Meets (decodeSection id sectionName body env d) (Advances b (.section id known sectionName body) env pos)
        (∀ steps, ¬Accepts b (.section id known sectionName body :: steps) pos) := by
  have hstart := startSection_meets id sectionName env h
  have hid : id.toByte ≠ SectionId.Custom.toByte := by
    revert known
    cases id <;> decide
  unfold decodeSection
  rcases hrun : startSection id sectionName env d with _ | msg | r
  . rw [hrun] at hstart
    exact hstart
  . rw [hrun] at hstart
    obtain ⟨secs, pos', skipped, _, hno, hnext, hheader⟩ := hstart
    intro steps haccepts
    cases haccepts with
    | absent skipped' _ notNext =>
      rw [skipped.unique_of_noCustomAt hno skipped' notNext.noCustomAt] at hnext
      exact hnext notNext
    | «section» skipped' header =>
      obtain rfl := skipped.unique_of_noCustomAt hno skipped' (header.noCustomAt hid)
      exact (hheader _ _).elim (fun hnot => hnot header) known
  rw [hrun] at hstart
  cases hstart with
  | absent secs pos' skipped notNext isAt of_custom =>
    refine ⟨[], pos, .nil pos, (List.append_nil _).symm, isAt, fun steps haccepts => ?_⟩
    cases haccepts with
    | absent _ _ _ rest => exact rest
    | «section» skipped' header =>
      obtain rfl := skipped.unique_of_noCustomAt notNext.noCustomAt skipped' (header.noCustomAt hid)
      exact absurd notNext header.not_notNext
  | @present env' d' secs pos' size start skipped header recorded isAt of_custom =>
    have haccepted {steps : List DecodeStep} (haccepts : Accepts b (.section id known sectionName body :: steps) pos)
        : body.run d' = .ok (start + size) ∧ Accepts b steps (start + size) := by
      cases haccepts with
      | absent skipped' _ notNext =>
        obtain rfl := skipped.unique_of_noCustomAt (header.noCustomAt hid) skipped' notNext.noCustomAt
        exact absurd notNext header.not_notNext
      | «section» skipped' header' ends rest =>
        obtain rfl := skipped.unique_of_noCustomAt (header.noCustomAt hid) skipped' (header'.noCustomAt hid)
        obtain ⟨_, rfl, rfl⟩ := header.unique header'
        exact ⟨ends d' isAt, rest⟩
    dsimp only
    rcases hbody : body.run d' with msg | p
    . intro steps haccepts
      cases hbody.symm.trans (haccepted haccepts).1
    dsimp only
    have hp : p ≤ b.stop := by
      have := body.inBounds d' p hbody
      rw [isAt.cur] at this
      exact this
    have hend := isAt.rollbackPosition hp
    have hiff := IsAt.finishSection_iff hend sectionName header.lt.2 header.size_at.value_lt
    rcases hfinish : (d'.rollbackPosition p).finishSection ⟨b.offset + start, size⟩ sectionName with msg | _
    . intro steps haccepts
      cases hbody.symm.trans (haccepted haccepts).1
      cases hfinish.symm.trans (hiff.mpr rfl)
    obtain rfl := hiff.mp hfinish
    refine ⟨secs.map .custom ++ [.known id.toByte], start + size, ?_, ?_, hend, fun _ haccepts => (haccepted haccepts).2⟩
    . exact skipped.append (.known hid header hp (.nil _))
    . rw [recorded, customs_append, customs_map_custom]
      exact congrArg _ (List.append_nil _).symm

theorem IsAt.finishCustomSection {start size p : Nat} (error : Option String) (h : IsAt b d p)
    (sectionName : String) (hle : start + size ≤ b.stop) (hsize : size < 2 ^ 32)
    : ∃ d', ({ d with error := error } : Decoder).finishCustomSection sectionName ⟨b.offset + start, size⟩ = some d'
      ∧ IsAt b d' (start + size) := by
  have hfits := b.fits
  have hpos := h.pos_le
  have hskip (warnings : List Warning) : ∃ d',
      ({ d with error := error, warnings := warnings } : Decoder).skipAndFinishCustomSection ⟨b.offset + start, size⟩
        = some d' ∧ IsAt b d' (start + size) :=
    IsAt.skipAndFinishCustomSection ⟨h.cur, h.offsetInModule, h.pos_le, h.resilientMode⟩ hle
  unfold Decoder.finishCustomSection
  cases error with
  | some error => exact hskip _
  | none =>
    dsimp only
    split
    next => exact hskip _
    next heq =>
      unfold toUint32 sizeSub currentOffset at heq
      rw [h.cur, h.offsetInModule, not_not] at heq
      dsimp only at heq
      obtain rfl : p = start + size := by omega
      exact ⟨_, rfl, h.cur, h.offsetInModule, h.pos_le, h.resilientMode⟩

theorem CustomAt.named_of_named {pos size start : Nat} {sec : CustomSectionEnv} {expected : Option (List (BitVec 8))}
    (h : CustomAt b pos size start sec) (hnamed : Named b expected sec) (size' start' : Nat) (sec' : CustomSectionEnv)
    (h' : CustomAt b pos size' start' sec') : Named b expected sec' := by
  obtain ⟨_, rfl, rfl⟩ := h.header.unique h'.header
  rwa [← h.unique h']

theorem NoCustomAt.named {pos : Nat} {expected : Option (List (BitVec 8))} (h : NoCustomAt b pos) (size start : Nat)
    (sec : CustomSectionEnv) (hat : CustomAt b pos size start sec) : Named b expected sec :=
  absurd hat (h size start sec)

theorem decodeCustomSection_meets (sectionName : String) (expected : List (BitVec 8)) (body : CustomSectionBody)
    (env : CustomSectionEnvVector) (h : IsAt b d pos)
    : Meets (decodeCustomSection sectionName expected body env d)
        (Advances b (.customSection sectionName expected body) env pos)
        (∀ steps, ¬Accepts b (.customSection sectionName expected body :: steps) pos) := by
  have hstart := startCustomSection_meets (some expected) env h
  unfold decodeCustomSection
  rcases hrun : startCustomSection (some expected) env d with _ | msg | r
  . rw [hrun] at hstart
    exact hstart
  . rw [hrun] at hstart
    obtain ⟨secs, pos', skipped, hunnamed, hno, hnext, _⟩ := hstart
    intro steps haccepts
    cases haccepts with
    | absent skipped' unnamed' notNext =>
      rw [skipped.unique hunnamed hno.named skipped' unnamed' notNext.noCustomAt.named] at hnext
      exact hnext notNext
    | customSection skipped' unnamed' sec_at named =>
      obtain rfl := skipped.unique hunnamed hno.named skipped' unnamed' (sec_at.named_of_named named)
      exact hno _ _ _ sec_at
  rw [hrun] at hstart
  cases hstart with
  | absent secs pos' skipped unnamed notNext isAt =>
    refine ⟨[], pos, .nil pos, (List.append_nil _).symm, isAt, fun steps haccepts => ?_⟩
    cases haccepts with
    | absent _ _ _ rest => exact rest
    | customSection skipped' unnamed' sec_at named =>
      obtain rfl := skipped.unique unnamed notNext.noCustomAt.named skipped' unnamed' (sec_at.named_of_named named)
      exact absurd sec_at (notNext.noCustomAt _ _ _)
  | @present range env' d' starts =>
    cases starts with
    | present secs sec pos' size start skipped unnamed sec_at named recorded isAt =>
      have hp : (body.run d').1 ≤ b.stop := by
        have := body.inBounds d'
        rw [isAt.cur] at this
        exact this
      have hend := isAt.rollbackPosition hp
      obtain ⟨d'', hfinish, hd''⟩ := IsAt.finishCustomSection (body.run d').2 hend sectionName sec_at.size_le
        sec_at.header.size_at.value_lt
      dsimp only
      rw [hfinish]
      refine ⟨(secs ++ [sec]).map .custom, start + size, ?_, ?_, hd'', fun steps haccepts => ?_⟩
      . rw [List.map_append]
        exact skipped.append (.custom sec_at (.nil _))
      . rw [recorded, customs_map_custom]
      cases haccepts with
      | absent skipped' unnamed' notNext =>
        obtain rfl := skipped.unique unnamed (sec_at.named_of_named named) skipped' unnamed' notNext.noCustomAt.named
        exact absurd sec_at (notNext.noCustomAt _ _ _)
      | customSection skipped' unnamed' sec_at' named' rest =>
        obtain rfl := skipped.unique unnamed (sec_at.named_of_named named) skipped' unnamed'
          (sec_at'.named_of_named named')
        obtain ⟨_, rfl, rfl⟩ := sec_at.header.unique sec_at'.header
        exact rest

theorem DecodeStep.run_meets (step : DecodeStep) (env : CustomSectionEnvVector) (h : IsAt b d pos)
    : Meets (step.run env d) (Advances b step env pos) (∀ steps, ¬Accepts b (step :: steps) pos) := by
  cases step with
  | «section» id known sectionName body => exact decodeSection_meets known sectionName body env h
  | customSection sectionName expected body => exact decodeCustomSection_meets sectionName expected body env h

def Decodes (b : ModuleBytes) (env : CustomSectionEnvVector) (pos : Nat) (r : CustomSectionEnvVector × Decoder) : Prop :=
  ∃ secs, Sections b pos secs b.stop ∧ r.1 = env ++ customs secs ∧ IsAt b r.2 b.stop

theorem Passes.trans (hsecs : Sections b pos secs pos') (henv : env' = env ++ customs secs)
    (h : Decodes b env' pos' r) : Decodes b env pos r := by
  obtain ⟨secs', hsecs', henv', hend⟩ := h
  refine ⟨secs ++ secs', hsecs.append hsecs', ?_, hend⟩
  rw [henv', henv, customs_append, List.append_assoc]

theorem skipCustomSections_meets {rounds : Nat} (hrounds : b.stop - pos < rounds) (env : CustomSectionEnvVector)
    (h : IsAt b d pos)
    : Meets (skipCustomSections rounds env d) (Decodes b env pos) (∀ secs, ¬Customs b pos secs b.stop) := by
  induction rounds generalizing pos env d with
  | zero => omega
  | succ rounds ih =>
    have hpos : d.cur.pos = pos := by rw [h.cur]
    have hstop : d.cur.stop = b.stop := by rw [h.cur]
    unfold skipCustomSections done
    rw [hpos, hstop, h.resilientMode]
    split
    next hdone =>
      obtain rfl := of_decide_eq_true hdone
      exact ⟨[], .nil _, (List.append_nil _).symm, h⟩
    next hmore =>
      have hskip := skipCustomSection_meets env h
      have hfirst {secs : List CustomSectionEnv} (hcustoms : Customs b pos secs b.stop)
          : ∃ size start sec secs', CustomAt b pos size start sec ∧ Customs b (start + size) secs' b.stop := by
        cases secs with
        | nil =>
          cases hcustoms
          exact absurd (decide_eq_true rfl) hmore
        | cons sec secs =>
          cases hcustoms with
          | custom hat hrest => exact ⟨_, _, sec, secs, hat, hrest⟩
      rcases hrun : skipCustomSection env d with _ | msg | ⟨env', d'⟩
      . rw [hrun] at hskip
        exact hskip
      . rw [hrun] at hskip
        intro secs hcustoms
        obtain ⟨size, start, sec, _, hat, _⟩ := hfirst hcustoms
        exact hskip size start sec hat
      rw [hrun] at hskip
      obtain ⟨size, start, sec, hat, henv, hd'⟩ := hskip
      have := hat.lt
      have := hd'.pos_le
      apply (ih (by omega) env' hd').mono
      . intro r hr
        exact Passes.trans (.custom hat (.nil _)) henv hr
      . intro hno secs hcustoms
        obtain ⟨_, _, _, secs', hat', hrest⟩ := hfirst hcustoms
        obtain ⟨_, rfl, rfl⟩ := hat.header.unique hat'.header
        exact hno secs' hrest

theorem decodeSections_meets (steps : List DecodeStep) (env : CustomSectionEnvVector) (h : IsAt b d pos)
    : Meets (decodeSections steps env d) (Decodes b env pos) (¬Accepts b steps pos) := by
  induction steps generalizing pos env d with
  | nil =>
    unfold decodeSections
    rw [h.bytesRemain]
    apply (skipCustomSections_meets (Nat.lt_succ_self _) env h).mono (fun _ hr => hr)
    intro hno haccepts
    cases haccepts with
    | nil passed => exact hno _ passed
  | cons step steps ih =>
    have hstep := step.run_meets env h
    unfold decodeSections
    rcases hrun : step.run env d with _ | msg | ⟨env', d'⟩
    . rw [hrun] at hstep
      exact hstep
    . rw [hrun] at hstep
      exact hstep steps
    rw [hrun] at hstep
    obtain ⟨secs, pos', hsecs, henv, hd', haccepts⟩ := hstep
    apply (ih env' hd').mono _ (mt (haccepts steps))
    intro r hr
    exact Passes.trans hsecs henv hr

-- The entries lie one after the other between two positions, each in a section of its own, with the name and the payload
-- after the header.
inductive Ordered (b : ModuleBytes) : Nat → List CustomSectionEnv → Nat → Prop where
  | nil {pos pos' : Nat} (h : pos ≤ pos') : Ordered b pos [] pos'
  | cons {pos pos' start size : Nat} {sec : CustomSectionEnv} {secs : List CustomSectionEnv} (pos_lt : pos < start)
      (name_gt : b.offset + start < sec.nameOffset) (payload_eq : sec.payloadOffset = sec.nameOffset + sec.nameLength)
      (end_eq : sec.payloadOffset + sec.payloadLength = b.offset + (start + size))
      (rest : Ordered b (start + size) secs pos') : Ordered b pos (sec :: secs) pos'

theorem Ordered.mono {pos pos' pos₀ : Nat} (hle : pos₀ ≤ pos)
    (h : Ordered b pos secs pos') : Ordered b pos₀ secs pos' := by
  cases h with
  | nil h => exact .nil (Nat.le_trans hle h)
  | cons pos_lt name_gt payload_eq end_eq rest =>
    exact .cons (Nat.lt_of_le_of_lt hle pos_lt) name_gt payload_eq end_eq rest

theorem Sections.ordered {pos pos' : Nat} (h : Sections b pos secs pos')
    : Ordered b pos (customs secs) pos' := by
  induction h with
  | nil => exact .nil (Nat.le_refl _)
  | known _ header _ _ ih =>
    have := header.lt
    exact ih.mono (by omega)
  | @custom pos pos' size start sec secs sec_at _ ih =>
    have := sec_at.header.lt
    have := sec_at.offset_le
    have := sec_at.name_at.lt
    have := sec_at.end_eq
    exact .cons (show pos < start by omega) (by omega) sec_at.payload_eq (by omega) ih

def RecordsOnce (b : ModuleBytes) (env : CustomSectionEnvVector) (pos : Nat) (r : CustomSectionEnvVector × Decoder) : Prop :=
  ∃ secs, (∀ secs', Sections b pos secs' b.stop ↔ secs' = secs)
    ∧ r.1 = env ++ customs secs ∧ Ordered b pos (customs secs) b.stop ∧ r.2.done = true

def Restores (b : ModuleBytes) (id : SectionId) (expected : Option (List (BitVec 8))) (env : CustomSectionEnvVector)
    (d : Decoder) (r : Option SectionRange × CustomSectionEnvVector × Decoder) : Prop :=
  r.1 = none → r.2.1 = env ∧ r.2.2.cur = d.cur ∧ ∃ secs pos', Customs b d.cur.pos secs pos'
    ∧ (id = .Custom → ∀ sec ∈ secs, ¬Named b expected sec) ∧ NotNext b id pos'

theorem customSections_recordedOnce (steps : List DecodeStep) (env : CustomSectionEnvVector) (h : IsAt b d pos)
    : Meets (decodeSections steps env d) (RecordsOnce b env pos) (¬Accepts b steps pos)
      ∧ (∀ id sectionName, id ≠ .Custom →
          Meets (startSection id sectionName env d) (Restores b id none env d) (Blocked b id (fun _ => False) pos))
      ∧ (∀ expected, Meets (startCustomSection expected env d) (Restores b .Custom expected env d)
          (Blocked b .Custom (Named b expected) pos))
      ∧ Meets (skipCustomSection env d) (Passes b env pos) (NoCustomAt b pos) := by
  have hpos : d.cur.pos = pos := by rw [h.cur]
  refine ⟨?_, ?_, ?_, ?_⟩
  . apply (decodeSections_meets steps env h).mono _ id
    rintro r ⟨secs, hsecs, henv, hend⟩
    refine ⟨secs, fun secs' => ⟨fun h' => h'.unique hsecs, fun heq => heq ▸ hsecs⟩, henv, hsecs.ordered, ?_⟩
    unfold done
    rw [hend.cur]
    exact decide_eq_true rfl
  . intro id sectionName hne
    apply (startSection_meets id sectionName env h).mono _ fun hblocked => hblocked
    intro r hr hnone
    cases hr with
    | absent secs pos' skipped notNext isAt =>
      rw [isAt.cur, h.cur]
      exact ⟨rfl, rfl, secs, pos', skipped, fun heq => absurd heq hne, notNext⟩
    | present => cases hnone
  . intro expected
    apply (startCustomSection_meets expected env h).mono _ id
    intro r hr hnone
    cases hr with
    | absent secs pos' skipped unnamed notNext isAt =>
      rw [isAt.cur, h.cur]
      exact ⟨rfl, rfl, secs, pos', skipped, fun _ => unnamed, notNext⟩
    | present => cases hnone
  . apply (skipCustomSection_meets env h).mono _ id
    rintro r ⟨size, start, sec, hat, henv, hd'⟩
    exact ⟨[.custom sec], start + size, .custom hat (.nil _), henv, hd'⟩

def threeSections : ModuleBytes where
  data := [0, 2, 1, 97, 1, 0, 0, 3, 1, 98, 7]
  stop := 11
  offset := 8
  inBounds := by decide
  fits := by decide

def emptySection : SectionBody where
  run := fun d => .ok (min d.cur.pos d.cur.stop)
  inBounds := by
    rintro d pos heq
    cases heq
    exact Nat.min_le_right _ _

def decoderOfThreeSections : Decoder where
  cur := ⟨threeSections.data, 0, 11⟩
  offsetInModule := 8
  error := none
  warnings := []
  resilientMode := false

def stepsOfThreeSections : List DecodeStep := [.section .Type (by decide) "type" emptySection]

theorem accepts_threeSections : Accepts threeSections stepsOfThreeSections 0 := by
  have hfirst : CustomAt threeSections 0 2 2 ⟨11, 1, 12, 0⟩ :=
    ⟨⟨by decide, rfl, 2, rfl, rfl⟩, by decide, by decide, ⟨1, rfl, rfl⟩, rfl, rfl⟩
  have hlast : CustomAt threeSections 6 3 8 ⟨17, 1, 18, 1⟩ :=
    ⟨⟨by decide, rfl, 3, rfl, rfl⟩, by decide, by decide, ⟨1, rfl, rfl⟩, rfl, rfl⟩
  have htype : HeaderAt threeSections 4 SectionId.Type.toByte 0 6 := ⟨by decide, rfl, 0, rfl, rfl⟩
  have hskipped : Customs threeSections 0 [⟨11, 1, 12, 0⟩] 4 := .custom hfirst (.nil _)
  have hpassed : Customs threeSections 6 [⟨17, 1, 18, 1⟩] threeSections.stop := .custom hlast (.nil _)
  have hends (d : Decoder) (h : IsAt threeSections d 6) : emptySection.run d = .ok 6 := by
    have hrun : emptySection.run d = .ok (min d.cur.pos d.cur.stop) := rfl
    rw [hrun, h.cur]
    rfl
  exact .section hskipped htype hends (.nil hpassed)

theorem customSections_recordedOnce_of_threeSections
    : ∃ r, decodeSections stepsOfThreeSections [] decoderOfThreeSections = some (.ok r)
      ∧ RecordsOnce threeSections [] 0 r := by
  have hall (d : Decoder) (h : IsAt threeSections d 0) : ∃ r, decodeSections stepsOfThreeSections [] d = some (.ok r)
      ∧ RecordsOnce threeSections [] 0 r :=
    Meets.exists_ok (customSections_recordedOnce stepsOfThreeSections [] h).1 (not_not_intro accepts_threeSections)
  exact hall _ ⟨rfl, rfl, by decide, rfl⟩

end SpiderMonkey.Wasm
