import SpiderMonkey.Frontend.Impl.BytecodeEmitter
import SpiderMonkey.Frontend.Lemmas.SourceNotes
import SpiderMonkey.Lib.Run

/-!
This module contains the positions that the source notes of a script decode to, and what each thing the emitter does
changes in them.
-/

namespace SpiderMonkey.Frontend

open Option
open SrcNote

abbrev Position := UInt32 × UInt32

def since (offset : Nat) (position : Position) (at_ : Nat → Position) (target : Nat) : Position :=
  if offset ≤ target then position else at_ target

theorem since_since (offset : Nat) (position position' : Position) (at_ : Nat → Position)
    : since offset position' (since offset position at_) = since offset position' at_ := by
  funext target
  simp only [since]
  split <;> rfl

namespace BytecodeSection

variable {lineNum : UInt32} {sec sec' : BytecodeSection} {position : Position} {at_ : Nat → Position}

structure TellsBy (lineNum : UInt32) (sec : BytecodeSection) (position : Position) (at_ : Nat → Position)
    (ns : List Note) : Prop where
  encodes : Encodes sec.notes ns
  lastNoteOffset_eq : deltas ns = sec.lastNoteOffset
  lastNoteOffset_le : sec.lastNoteOffset ≤ sec.codeLength
  endPosition_eq : endPosition lineNum ns = position
  positionAt_eq : ∀ target, positionAt lineNum ns target = at_ target

def Tells (lineNum : UInt32) (sec : BytecodeSection) (position : Position) (at_ : Nat → Position) : Prop :=
  ∃ ns, TellsBy lineNum sec position at_ ns

theorem tells_init
    : (init lineNum).Tells lineNum (lineNum, 0) (fun _ => (lineNum, 0)) := by
  refine ⟨[], ?_⟩
  constructor
  . exact encodes_nil
  . rfl
  . exact Nat.le_refl 0
  . rfl
  . intro target
    rfl

theorem Tells.congr (h : sec.Tells lineNum position at_) (hnotes : sec'.notes = sec.notes)
    (hlast : sec'.lastNoteOffset = sec.lastNoteOffset) (hlength : sec.codeLength ≤ sec'.codeLength)
    : sec'.Tells lineNum position at_ := by
  obtain ⟨ns, h⟩ := h
  refine ⟨ns, ?_, ?_, ?_, h.endPosition_eq, h.positionAt_eq⟩
  . rw [hnotes]
    exact h.encodes
  . rw [hlast]
    exact h.lastNoteOffset_eq
  . rw [hlast]
    exact Nat.le_trans h.lastNoteOffset_le hlength

theorem Tells.since_self (h : sec.Tells lineNum position at_)
    : since sec.codeLength position at_ = at_ := by
  obtain ⟨ns, h⟩ := h
  funext target
  rw [since]
  split
  next hle =>
    rw [← h.positionAt_eq, ← h.endPosition_eq, positionAt, applyUpTo_all]
    . rfl
    . rw [h.lastNoteOffset_eq, Nat.zero_add]
      exact Nat.le_trans h.lastNoteOffset_le hle
  next => rfl

def moved (position : Position) (type : SrcNoteType) (operand : Nat) : Position :=
  Note.apply position ⟨type, 0, operand⟩

theorem TellsBy.concat {bytes : SrcNotesVector}
    (h : TellsBy lineNum sec position at_ ns) (hbytes : Encodes bytes (xdeltas ++ [n]))
    (hxdeltas : ∀ n ∈ xdeltas, n.type = .xDelta) (hsum : deltas xdeltas + n.delta = sec.codeLength - sec.lastNoteOffset)
    (hnotes : sec'.notes = sec.notes ++ bytes) (hlast : sec'.lastNoteOffset = sec.codeLength)
    (hlength : sec'.codeLength = sec.codeLength)
    : TellsBy lineNum sec' (moved position n.type n.operand)
        (since sec.codeLength (moved position n.type n.operand) at_) (ns ++ (xdeltas ++ [n])) := by
  have htotal : deltas ns + (deltas xdeltas + n.delta) = sec.codeLength := by
    rw [hsum, h.lastNoteOffset_eq]
    exact Nat.add_sub_cancel' h.lastNoteOffset_le
  constructor
  . rw [hnotes]
    exact h.encodes.append hbytes
  . rw [deltas_append, deltas_append, hlast, ← htotal]
    rfl
  . exact Nat.le_of_eq (by rw [hlast, hlength])
  . rw [endPosition_concat hxdeltas, h.endPosition_eq]
    rfl
  . intro target
    rw [positionAt_concat target hxdeltas, htotal, h.endPosition_eq, h.positionAt_eq]
    rfl

structure SameCode (sec sec' : BytecodeSection) : Prop where
  codeLength_eq : sec'.codeLength = sec.codeLength
  currentLine_eq : sec'.currentLine = sec.currentLine
  lastColumn_eq : sec'.lastColumn = sec.lastColumn

theorem tells_newSrcNote {type : SrcNoteType} (htype : type ≠ .xDelta) (hnull : type ≠ .null)
    (harity : type.arity = 0) (h : sec.Tells lineNum position at_) (hnew : sec.newSrcNote type = some sec')
    : sec'.Tells lineNum (moved position type 0) (since sec.codeLength (moved position type 0) at_)
      ∧ SameCode sec sec' := by
  obtain ⟨ns, h⟩ := h
  simp only [newSrcNote, bind_eq_some, pure_def, Option.some.injEq] at hnew
  obtain ⟨notes, hwrite, rfl⟩ := hnew
  obtain ⟨bytes, xdeltas, delta', rfl, hbytes, hxdeltas, hdelta', hsum⟩ := writeNote_spec hwrite
  have hnote := encodes_note (isTerminator_noteValue htype hnull hdelta')
    (by rw [arity, type_noteValue htype hdelta', harity])
  rw [type_noteValue htype hdelta', delta_noteValue htype hdelta'] at hnote
  refine ⟨⟨_, h.concat (hbytes.append hnote) hxdeltas hsum (List.append_assoc _ _ _) rfl rfl⟩, ?_⟩
  constructor <;> rfl

theorem tells_newSrcNote2 {type : SrcNoteType} {operand : Nat} (htype : type ≠ .xDelta) (hnull : type ≠ .null)
    (harity : type.arity = 1) (h : sec.Tells lineNum position at_) (hnew : sec.newSrcNote2 type operand = some sec')
    : sec'.Tells lineNum (moved position type operand) (since sec.codeLength (moved position type operand) at_)
      ∧ SameCode sec sec' := by
  obtain ⟨ns, h⟩ := h
  simp only [newSrcNote2, newSrcNote, newSrcNoteOperand, bind_eq_some,
    pure_def, Option.some.injEq, exists_exists_and_eq_and, ite_none_right_eq_some] at hnew
  obtain ⟨notes, hwrite, hoperand, notes', hwriteOperand, rfl⟩ := hnew
  have hmax : operand ≤ MaxOperand := by
    simp only [isRepresentableOperand, decide_eq_true_eq] at hoperand
    omega
  rw [Int.toNat_natCast] at hwriteOperand
  obtain ⟨bytes, xdeltas, delta', rfl, hbytes, hxdeltas, hdelta', hsum⟩ := writeNote_spec hwrite
  obtain ⟨operands, rfl, hoperands⟩ := writeOperand_spec hmax hwriteOperand
  have hnote := encodes_note_operand (isTerminator_noteValue htype hnull hdelta')
    (by rw [arity, type_noteValue htype hdelta', harity]) hoperands
  rw [type_noteValue htype hdelta', delta_noteValue htype hdelta'] at hnote
  refine ⟨⟨_, h.concat (hbytes.append hnote) hxdeltas hsum ?_ rfl rfl⟩, ?_⟩
  . simp only [List.append_assoc, List.singleton_append]
  . constructor <;> rfl

theorem tells_newSrcNote_other {note : OtherNote} (h : sec.Tells lineNum position at_)
    (hnew : sec.newSrcNote note.type = some sec')
    : sec'.Tells lineNum position at_ ∧ SameCode sec sec' := by
  have htype : note.type ≠ .xDelta ∧ note.type ≠ .null ∧ note.type.arity = 0 := by
    cases note <;> decide
  have hmoved : moved position note.type 0 = position := by
    cases note <;> rfl
  have htells := tells_newSrcNote htype.1 htype.2.1 htype.2.2 h hnew
  rw [hmoved, h.since_self] at htells
  exact htells

theorem tells_newLineNotes (h : sec.Tells lineNum position at_) (hnew : sec.newLineNotes again = some sec')
    : sec'.Tells lineNum (position.1 + UInt32.ofNat (again + 1), 0)
        (since sec.codeLength (position.1 + UInt32.ofNat (again + 1), 0) at_)
      ∧ SameCode sec sec' := by
  induction again generalizing sec position at_ with
  | zero => exact tells_newSrcNote (by decide) (by decide) rfl h hnew
  | succ again ih =>
    rw [newLineNotes, bind_eq_some] at hnew
    obtain ⟨sec₁, hfirst, hnew⟩ := hnew
    obtain ⟨htells, hsame⟩ := tells_newSrcNote (by decide) (by decide) rfl h hfirst
    obtain ⟨htells', hsame'⟩ := ih htells hnew
    have hline : (moved position .newLine 0).1 + UInt32.ofNat (again + 1)
        = position.1 + UInt32.ofNat (again + 1 + 1) := by
      rw [UInt32.ofNat_add (again + 1) 1, UInt32.add_comm (UInt32.ofNat (again + 1)), ← UInt32.add_assoc]
      rfl
    rw [hline, hsame.codeLength_eq, since_since] at htells'
    refine ⟨htells', ?_⟩
    constructor
    . rw [hsame'.codeLength_eq, hsame.codeLength_eq]
    . rw [hsame'.currentLine_eq, hsame.currentLine_eq]
    . rw [hsame'.lastColumn_eq, hsame.lastColumn_eq]

theorem ofInt_toNat (n : UInt32)
    : UInt32.ofInt n.toNat = n := by
  have hlt : n.toNat < 2 ^ 32 := n.toNat_lt
  have hmod : ((n.toNat : Int) % 2 ^ 32).toNat = n.toNat := by
    omega
  rw [UInt32.ofInt, hmod, UInt32.ofNat_toNat]

section Updates

variable {er : ErrorReporter} {offset : UInt32}

def Current (lineNum : UInt32) (sec : BytecodeSection) (at_ : Nat → Position) : Prop :=
  sec.Tells lineNum (sec.currentLine, sec.lastColumn) at_ ∧ sec.lastColumn.toNat < 2 ^ 30

theorem tells_lineNotes {line : UInt32} (h : sec.Tells lineNum position at_) (hposition : position.1 = sec.currentLine)
    (hnew : (if line - sec.currentLine ≥ SetLine.lengthFor line then
        (sec.setCurrentLine line offset).newSrcNote2 .setLine (SetLine.toOperand line)
      else (sec.setCurrentLine line offset).newLineNotes (line - sec.currentLine - 1).toNat) = some sec')
    : sec'.Tells lineNum (line, 0) (since sec.codeLength (line, 0) at_)
      ∧ SameCode (sec.setCurrentLine line offset) sec' := by
  have hmoved : (sec.setCurrentLine line offset).Tells lineNum position at_ := h.congr rfl rfl (Nat.le_refl _)
  split at hnew
  . have hline : moved position .setLine (SetLine.toOperand line) = (line, 0) := by
      rw [moved, Note.apply, SetLine.fromOperand, SetLine.toOperand, UInt32.ofNat_toNat]
    have htells := tells_newSrcNote2 (by decide) (by decide) rfl hmoved hnew
    rw [hline] at htells
    exact htells
  have hline : position.1 + UInt32.ofNat ((line - sec.currentLine - 1).toNat + 1) = line := by
    rw [UInt32.ofNat_add, UInt32.ofNat_toNat, hposition]
    grind
  have htells := tells_newLineNotes hmoved hnew
  rw [hline] at htells
  exact htells

theorem current_updateLineNumberNotes (h : sec.Current lineNum at_)
    (hupdate : sec.updateLineNumberNotes er offset = some sec')
    : sec'.Current lineNum (since sec.codeLength (er.lineAt offset, sec'.lastColumn) at_)
      ∧ sec'.codeLength = sec.codeLength ∧ sec'.currentLine = er.lineAt offset := by
  simp only [updateLineNumberNotes, bind_eq_some, pure_def] at hupdate
  obtain ⟨onThisLine, honThisLine, hupdate⟩ := hupdate
  obtain ⟨htells, hcolumn⟩ := h
  have hline := er.isOnThisLine_eq _ _ _ honThisLine
  split at hupdate
  next htrue =>
    cases hupdate
    rw [htrue, eq_comm, decide_eq_true_iff] at hline
    rw [hline, htells.since_self]
    exact ⟨⟨htells, hcolumn⟩, rfl, rfl⟩
  next hfalse =>
    obtain ⟨htells', hsame⟩ := tells_lineNotes htells rfl hupdate
    have hcurrentLine : sec'.currentLine = er.lineAt offset := hsame.currentLine_eq
    have hlastColumn : sec'.lastColumn = 0 := hsame.lastColumn_eq
    refine ⟨⟨?_, ?_⟩, hsame.codeLength_eq, hcurrentLine⟩
    . rw [hcurrentLine, hlastColumn]
      exact htells'
    . rw [hlastColumn]
      decide

theorem current_updateColumnNotes (h : sec.Current lineNum at_) (hupdate : sec.updateColumnNotes er offset = some sec')
    : sec'.Current lineNum (since sec.codeLength (sec.currentLine, er.columnAt offset) at_)
      ∧ sec'.codeLength = sec.codeLength := by
  obtain ⟨htells, hcolumn⟩ := h
  have hcolumnAt := er.columnAt_lt offset
  simp only [updateColumnNotes] at hupdate
  split at hupdate
  next hspan =>
    have hrepresentable
        : ColSpan.isRepresentable ((er.columnAt offset).toNat - sec.lastColumn.toNat : Int) = true := by
      rw [isRepresentable_iff]
      omega
    rw [hrepresentable, Bool.not_true, if_neg (by decide), bind_eq_some] at hupdate
    obtain ⟨sec₁, hnew, hupdate⟩ := hupdate
    cases hupdate
    obtain ⟨htells', hsame⟩ := tells_newSrcNote2 (by decide) (by decide) rfl htells hnew
    have hmoved : moved (sec.currentLine, sec.lastColumn) .colSpan
        (ColSpan.toOperand ((er.columnAt offset).toNat - sec.lastColumn.toNat))
          = (sec.currentLine, er.columnAt offset) := by
      rw [moved, Note.apply, fromOperand_toOperand hrepresentable]
      simp only
      rw [show (sec.lastColumn.toNat : Int) + ((er.columnAt offset).toNat - sec.lastColumn.toNat)
          = (er.columnAt offset).toNat by omega, ofInt_toNat]
    rw [hmoved] at htells'
    refine ⟨⟨?_, hcolumnAt⟩, hsame.codeLength_eq⟩
    have hcurrentLine : (sec₁.setLastColumn (er.columnAt offset) offset).currentLine = sec.currentLine :=
      hsame.currentLine_eq
    rw [hcurrentLine]
    exact htells'.congr rfl rfl (Nat.le_refl _)
  next hspan =>
    cases hupdate
    have heq : er.columnAt offset = sec.lastColumn := by
      apply UInt32.toNat_inj.mp
      omega
    rw [heq, htells.since_self]
    exact ⟨⟨htells, hcolumn⟩, rfl⟩

end Updates
end BytecodeSection

structure Update where
  codeOffset : Nat
  line : UInt32
  column : UInt32
deriving DecidableEq

structure Timeline where
  inPrologue : Bool
  codeOffset : Nat
  updates : List Update
deriving DecidableEq

def Timeline.next (er : ErrorReporter) (skips : Bool → Bool) (t : Timeline) : Emission → Timeline
  | .emit delta => { t with codeOffset := t.codeOffset + delta }
  | .updateSourceCoordNotes offset =>
    if skips t.inPrologue then t
    else { t with updates := t.updates ++ [⟨t.codeOffset, er.lineAt offset, er.columnAt offset⟩] }
  | .newSrcNote _ => t
  | .switchToMain => { t with inPrologue := false }

def timeline (er : ErrorReporter) (skips : Bool → Bool) (emissions : List Emission) : Timeline :=
  emissions.foldl (Timeline.next er skips) ⟨true, 0, []⟩

def lastUpdate (lineNum : UInt32) (updates : List Update) (target : Nat) : UInt32 × UInt32 :=
  match (updates.filter (·.codeOffset ≤ target)).getLast? with
  | some update => (update.line, update.column)
  | none => (lineNum, 0)

def skipsLocation (emitterMode : EmitterMode) (inPrologue : Bool) : Bool :=
  inPrologue || emitterMode == .SelfHosting

theorem lastUpdate_concat (lineNum : UInt32) (updates : List Update) (update : Update)
    : lastUpdate lineNum (updates ++ [update])
      = since update.codeOffset (update.line, update.column) (lastUpdate lineNum updates) := by
  funext target
  rw [lastUpdate, since, List.filter_append]
  by_cases h : update.codeOffset ≤ target
  . rw [if_pos h, List.filter_cons_of_pos (by simpa using h), List.filter_nil, List.getLast?_concat]
  . rw [if_neg h, List.filter_cons_of_neg (by simpa using h), List.filter_nil, List.append_nil]
    rfl

variable {er : ErrorReporter} {lineNum : UInt32} {emitterMode : EmitterMode}

structure Synced (er : ErrorReporter) (lineNum : UInt32) (emitterMode : EmitterMode) (emissions : List Emission)
    (bce : BytecodeEmitter) : Prop where
  emitterMode_eq : bce.emitterMode = emitterMode
  inPrologue_eq : (timeline er (skipsLocation emitterMode) emissions).inPrologue = bce.inPrologue
  codeOffset_eq : (timeline er (skipsLocation emitterMode) emissions).codeOffset = bce.bytecodeSection.codeLength
  current : bce.bytecodeSection.Current lineNum
    (lastUpdate lineNum (timeline er (skipsLocation emitterMode) emissions).updates)

theorem timeline_concat (skips : Bool → Bool) (emissions : List Emission) (e : Emission)
    : timeline er skips (emissions ++ [e]) = (timeline er skips emissions).next er skips e := by
  rw [timeline, List.foldl_append]
  rfl

theorem synced_init
    : Synced er lineNum emitterMode [] (BytecodeEmitter.init lineNum emitterMode) := by
  refine ⟨rfl, rfl, rfl, ?_, ?_⟩
  . exact BytecodeSection.tells_init
  . exact (show (0 : UInt32).toNat < 2 ^ 30 by decide)

theorem Synced.skipLocationSrcNotes_eq (h : Synced er lineNum emitterMode emissions bce)
    : skipsLocation emitterMode (timeline er (skipsLocation emitterMode) emissions).inPrologue
      = bce.skipLocationSrcNotes := by
  rw [skipsLocation, h.inPrologue_eq, BytecodeEmitter.skipLocationSrcNotes, h.emitterMode_eq]

theorem synced_updateSourceCoordNotes {offset : UInt32}
    (h : Synced er lineNum emitterMode emissions bce) (hstep : bce.updateSourceCoordNotes er offset = some bce')
    : Synced er lineNum emitterMode (emissions ++ [.updateSourceCoordNotes offset]) bce' := by
  have hskips := h.skipLocationSrcNotes_eq
  rw [BytecodeEmitter.updateSourceCoordNotes, BytecodeEmitter.updateLineNumberNotes] at hstep
  by_cases hskip : bce.skipLocationSrcNotes = true
  . rw [if_pos hskip, bind_eq_bind, bind_some, if_pos hskip] at hstep
    cases hstep
    rw [hskip] at hskips
    refine ⟨h.emitterMode_eq, ?_, ?_, ?_⟩ <;> rw [timeline_concat, Timeline.next, if_pos hskips]
    . exact h.inPrologue_eq
    . exact h.codeOffset_eq
    . exact h.current
  rw [Bool.eq_false_iff.mpr hskip] at hskips
  rw [if_neg hskip] at hstep
  simp only [bind_eq_bind, bind_eq_some_iff, pure_def, Option.some.injEq, exists_exists_and_eq_and] at hstep
  obtain ⟨sec₁, hline, hstep⟩ := hstep
  rw [if_neg (by exact hskip), bind_eq_some_iff] at hstep
  obtain ⟨sec₂, hcolumn, hstep⟩ := hstep
  cases hstep
  obtain ⟨hcurrent₁, hlength₁, hline₁⟩ := BytecodeSection.current_updateLineNumberNotes h.current hline
  obtain ⟨hcurrent₂, hlength₂⟩ := BytecodeSection.current_updateColumnNotes hcurrent₁ hcolumn
  refine ⟨h.emitterMode_eq, ?_, ?_, ?_⟩ <;> rw [timeline_concat, Timeline.next, if_neg (by rw [hskips]; decide)]
  . exact h.inPrologue_eq
  . exact h.codeOffset_eq.trans (hlength₂.trans hlength₁).symm
  rw [lastUpdate_concat, h.codeOffset_eq]
  rw [hlength₁, hline₁, since_since] at hcurrent₂
  exact hcurrent₂

theorem synced_step (h : Synced er lineNum emitterMode emissions bce) (hstep : bce.step er e = some bce')
    : Synced er lineNum emitterMode (emissions ++ [e]) bce' := by
  cases e with
  | emit delta =>
    rw [BytecodeEmitter.step, BytecodeEmitter.emitCheck] at hstep
    split at hstep
    . contradiction
    cases hstep
    obtain ⟨htells, hcolumn⟩ := h.current
    refine ⟨h.emitterMode_eq, ?_, ?_, ?_⟩ <;> rw [timeline_concat]
    . exact h.inPrologue_eq
    . exact congrArg (· + delta) h.codeOffset_eq
    . exact ⟨htells.congr rfl rfl (Nat.le_add_right _ _), hcolumn⟩
  | updateSourceCoordNotes offset => exact synced_updateSourceCoordNotes h hstep
  | newSrcNote note =>
    simp only [BytecodeEmitter.step, BytecodeEmitter.newSrcNote, bind_eq_some, pure_def, Option.some.injEq] at hstep
    obtain ⟨sec, hnew, rfl⟩ := hstep
    obtain ⟨htells, hcolumn⟩ := h.current
    obtain ⟨htells', hsame⟩ := BytecodeSection.tells_newSrcNote_other htells hnew
    refine ⟨h.emitterMode_eq, ?_, ?_, ?_⟩ <;> rw [timeline_concat]
    . exact h.inPrologue_eq
    . exact h.codeOffset_eq.trans hsame.codeLength_eq.symm
    . rw [BytecodeSection.Current, hsame.currentLine_eq, hsame.lastColumn_eq]
      exact ⟨htells', hcolumn⟩
  | switchToMain =>
    rw [BytecodeEmitter.step, BytecodeEmitter.switchToMain] at hstep
    split at hstep
    . cases hstep
      refine ⟨h.emitterMode_eq, ?_, ?_, ?_⟩ <;> rw [timeline_concat]
      . rfl
      . exact h.codeOffset_eq
      . exact h.current
    . contradiction

theorem PCToLineNumber_lastUpdate {emissions : List Emission} {bce : BytecodeEmitter}
    (hrun : BytecodeEmitter.run er lineNum emitterMode emissions = some bce) (target : Nat)
    : PCToLineNumber lineNum bce.finish target
      = some (lastUpdate lineNum (timeline er (skipsLocation emitterMode) emissions).updates target) := by
  have hsynced : Synced er lineNum emitterMode emissions bce := by
    have hinv := Run.foldlM_inv (Synced er lineNum emitterMode) (fun _ _ _ _ h hstep => synced_step h hstep)
      synced_init hrun
    exact hinv
  obtain ⟨⟨ns, htells⟩, _⟩ := hsynced.current
  have hpadding : 0 < BytecodeEmitter.ComputeNotePadding bce.bytecodeSection.codeLength
      bce.bytecodeSection.notes.length := by
    apply Nat.sub_pos_of_lt
    exact Nat.mod_lt _ (by decide)
  have hns : notesOf bce.finish = some ns := htells.encodes.notesOf_replicate hpadding
  rw [PCToLineNumber_eq, hns, map_some, htells.positionAt_eq]

def tenColumns : ErrorReporter where
  lineAt offset := 1 + offset / 10
  columnAt offset := offset % 10
  isOnThisLine offset lineNum := some (decide (1 + offset / 10 = lineNum))
  isOnThisLine_eq offset lineNum onThisLine h := (Option.some.inj h).symm
  columnAt_lt offset := by
    rw [UInt32.toNat_mod]
    exact Nat.lt_trans (Nat.mod_lt _ (by decide)) (by decide)

theorem PCToLineNumber_lastUpdate_forLoop
    : ∃ bce, BytecodeEmitter.run tenColumns 1 .Normal
        [.switchToMain, .updateSourceCoordNotes 47, .emit 300, .newSrcNote .breakpoint, .updateSourceCoordNotes 23,
          .emit 2] = some bce
      ∧ PCToLineNumber 1 bce.finish 299 = some (5, 7) ∧ PCToLineNumber 1 bce.finish 301 = some (3, 3) := by
  obtain ⟨bce, hrun⟩ : ∃ bce, BytecodeEmitter.run tenColumns 1 .Normal
      [.switchToMain, .updateSourceCoordNotes 47, .emit 300, .newSrcNote .breakpoint, .updateSourceCoordNotes 23,
        .emit 2] = some bce := by
    apply isSome_iff_exists.mp
    decide +kernel
  refine ⟨bce, hrun, ?_, ?_⟩
  . rw [PCToLineNumber_lastUpdate hrun]
    decide
  . rw [PCToLineNumber_lastUpdate hrun]
    decide

theorem selfHosted_updates_skipped
    : ¬ ∀ (er : ErrorReporter) (lineNum : UInt32) (emitterMode : EmitterMode) (emissions : List Emission)
        (bce : BytecodeEmitter), BytecodeEmitter.run er lineNum emitterMode emissions = some bce
        → ∀ target, PCToLineNumber lineNum bce.finish target
          = some (lastUpdate lineNum (timeline er (fun _ => false) emissions).updates target) := by
  intro hclaim
  have hskipped := hclaim tenColumns 1 .SelfHosting [.switchToMain, .updateSourceCoordNotes 23, .emit 1] _ rfl 0
  revert hskipped
  decide

end SpiderMonkey.Frontend
