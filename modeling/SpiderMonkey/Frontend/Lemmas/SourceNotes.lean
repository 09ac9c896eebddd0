import SpiderMonkey.Lib.OptionBind
import SpiderMonkey.Frontend.Impl.SourceNotes

/-!
This module contains what a reader of source notes gets to see of the bytes that a writer made.
-/

namespace SpiderMonkey

open List
open SrcNote

-- A note with its operand, whatever the bytes.
structure Note where
  type : SrcNoteType
  delta : Nat
  operand : Nat
deriving DecidableEq

def Note.ofPtr (sn : SrcNotePtr) : Note where
  type := ptrType sn
  delta := ptrDelta sn
  operand := if (ptrType sn).arity = 0 then 0 else SrcNoteReader.getOperand sn 0

theorem Note.ofPtr_cons (sn : SrcNote) (rest : SrcNotePtr)
    : Note.ofPtr (sn :: rest)
        = ⟨sn.type, sn.delta, if sn.arity = 0 then 0 else SrcNoteReader.getOperand (sn :: rest) 0⟩ := by
  rfl

def notesOf (bytes : SrcNotesVector) : Option (List Note) :=
  (SrcNoteIterator.pointers bytes).map (List.map Note.ofPtr)

def Encodes (bytes : SrcNotesVector) (ns : List Note) : Prop :=
  ∀ rest later, notesOf rest = some later → notesOf (bytes ++ rest) = some (ns ++ later)

section Values

theorem type_noteValue {type : SrcNoteType} {delta : Nat} (htype : type ≠ .xDelta) (hdelta : delta < DeltaLimit)
    : (noteValue type delta).type = type := by
  have h : ∀ delta : Fin DeltaLimit, ∀ type, type ≠ .xDelta → (noteValue type delta).type = type := by
    intro delta type htype
    revert delta
    cases type <;> first | contradiction | decide
  exact h ⟨delta, hdelta⟩ type htype

theorem delta_noteValue {type : SrcNoteType} {delta : Nat} (htype : type ≠ .xDelta) (hdelta : delta < DeltaLimit)
    : (noteValue type delta).delta = delta := by
  have h : ∀ delta : Fin DeltaLimit, ∀ type, type ≠ .xDelta → (noteValue type delta).delta = delta := by
    intro delta type htype
    revert delta
    cases type <;> first | contradiction | decide
  exact h ⟨delta, hdelta⟩ type htype

theorem isTerminator_noteValue {type : SrcNoteType} {delta : Nat} (htype : type ≠ .xDelta) (hnull : type ≠ .null)
    (hdelta : delta < DeltaLimit)
    : (noteValue type delta).isTerminator = false := by
  have htype' := type_noteValue htype hdelta
  rw [isTerminator, beq_eq_false_iff_ne]
  intro hterminator
  rw [hterminator] at htype'
  exact hnull (htype'.symm.trans (by decide))

theorem xDeltaValue_spec {delta : Nat} (h : delta ≤ XDeltaMask)
    : (xDeltaValue delta).type = .xDelta ∧ (xDeltaValue delta).delta = delta
      ∧ (xDeltaValue delta).isTerminator = false := by
  have hall : ∀ delta : Fin (XDeltaMask + 1), (xDeltaValue delta).type = .xDelta ∧ (xDeltaValue delta).delta = delta
      ∧ (xDeltaValue delta).isTerminator = false := by
    decide
  exact hall ⟨delta, Nat.lt_succ_of_le h⟩

end Values

section Iterator

open SrcNoteIterator

theorem pointersFrom_mono {bytes : SrcNotePtr} (hle : fuel ≤ fuel') (h : pointersFrom fuel bytes = some sns)
    : pointersFrom fuel' bytes = some sns := by
  induction fuel, bytes using pointersFrom.induct generalizing fuel' sns with
  | case1 bytes => cases h
  | case2 fuel => cases h
  | case3 fuel sn rest hterminator =>
    obtain ⟨fuel', rfl⟩ := Nat.exists_eq_add_of_le' (Nat.le_trans (Nat.succ_le_succ (Nat.zero_le fuel)) hle)
    rw [pointersFrom, if_pos hterminator] at h ⊢
    exact h
  | case4 fuel sn rest hterminator ih =>
    obtain ⟨fuel', rfl⟩ := Nat.exists_eq_add_of_le' (Nat.le_trans (Nat.succ_le_succ (Nat.zero_le fuel)) hle)
    rw [pointersFrom, if_neg hterminator, Option.map_eq_some_iff] at h ⊢
    obtain ⟨later, hlater, rfl⟩ := h
    exact ⟨later, ih (Nat.le_of_succ_le_succ hle) hlater, rfl⟩

theorem notesOf_cons {sn : SrcNote} {operands rest : SrcNotePtr} {later : List Note}
    (hterminator : sn.isTerminator = false) (hnext : next sn (operands ++ rest) = rest)
    (hrest : notesOf rest = some later)
    : notesOf (sn :: operands ++ rest) = some (Note.ofPtr (sn :: operands ++ rest) :: later) := by
  rw [notesOf, Option.map_eq_some_iff] at hrest ⊢
  obtain ⟨sns, hsns, rfl⟩ := hrest
  refine ⟨(sn :: operands ++ rest) :: sns, ?_, rfl⟩
  have hfuel : rest.length ≤ (operands ++ rest).length := by
    rw [length_append]
    exact Nat.le_add_left _ _
  rw [pointers, cons_append, length_cons, pointersFrom, hterminator, hnext, pointersFrom_mono hfuel hsns]
  rfl

end Iterator

section Encodes

theorem encodes_nil
    : Encodes [] [] := by
  intro rest later h
  exact h

theorem Encodes.append {bytes bytes' : SrcNotesVector} (h : Encodes bytes ns) (h' : Encodes bytes' ns')
    : Encodes (bytes ++ bytes') (ns ++ ns') := by
  intro rest later hrest
  rw [append_assoc, append_assoc]
  apply h
  apply h'
  exact hrest

theorem Encodes.notesOf_replicate {bytes : SrcNotesVector} (h : Encodes bytes ns) (hk : 0 < k)
    : notesOf (bytes ++ List.replicate k terminator) = some ns := by
  obtain ⟨k, rfl⟩ := Nat.exists_eq_add_of_lt hk
  rw [replicate_succ, h _ _ rfl, map_nil, append_nil]

theorem encodes_note (hterminator : sn.isTerminator = false) (harity : sn.arity = 0)
    : Encodes [sn] [⟨sn.type, sn.delta, 0⟩] := by
  intro rest later hrest
  have hnext : SrcNoteIterator.next sn ([] ++ rest) = rest := by
    rw [SrcNoteIterator.next, harity, skipOperands, nil_append]
  have hptr : Note.ofPtr ([sn] ++ rest) = ⟨sn.type, sn.delta, 0⟩ := by
    rw [singleton_append, Note.ofPtr_cons, if_pos harity]
  rw [notesOf_cons hterminator hnext hrest, hptr]
  rfl

def IsOperand (operands : SrcNotePtr) (operand : Nat) : Prop :=
  ∀ rest, skipOperands 1 (operands ++ rest) = rest
    ∧ ∀ sn, SrcNoteReader.getOperand (sn :: operands ++ rest) 0 = operand

theorem encodes_note_operand {operand : Nat}
    (hterminator : sn.isTerminator = false) (harity : sn.arity = 1) (h : IsOperand operands operand)
    : Encodes (sn :: operands) [⟨sn.type, sn.delta, operand⟩] := by
  intro rest later hrest
  obtain ⟨hskip, hoperand⟩ := h rest
  have hnext : SrcNoteIterator.next sn (operands ++ rest) = rest := by
    rw [SrcNoteIterator.next, harity, hskip]
  have hptr : Note.ofPtr (sn :: operands ++ rest) = ⟨sn.type, sn.delta, operand⟩ := by
    rw [cons_append, Note.ofPtr_cons, if_neg (by rw [harity]; decide), ← cons_append, hoperand]
  rw [notesOf_cons hterminator hnext hrest, hptr]
  rfl

end Encodes

section Operands

theorem isFourBytesOperand_flag (n : Nat)
    : isFourBytesOperand (BitVec.ofNat 8 (FourBytesOperandFlag ||| n)) = true := by
  have h : ∀ b : BitVec 8, isFourBytesOperand (0x80#8 ||| b) = true := by
    decide
  rw [BitVec.ofNat_or]
  exact h _

theorem isOperand_short {operand : Nat} (h : operand ≤ FourBytesOperandMask)
    : IsOperand [BitVec.ofNat 8 operand] operand := by
  have hall : ∀ operand : Fin (FourBytesOperandMask + 1), isFourBytesOperand (BitVec.ofNat 8 operand) = false := by
    decide
  have hflag : isFourBytesOperand (BitVec.ofNat 8 operand) = false := hall ⟨operand, Nat.lt_succ_of_le h⟩
  intro rest
  constructor
  . simp [skipOperands, hflag]
  intro sn
  have hlt : operand < 256 := Nat.lt_of_le_of_lt h (by decide)
  simp [SrcNoteReader.getOperand, SrcNoteReader.getOperandHead, skipOperands, hflag]
  omega

theorem or_eq_add (i : Nat) (ha : 2 ^ i ∣ a) (hb : b < 2 ^ i)
    : a ||| b = a + b := by
  obtain ⟨k, rfl⟩ := ha
  rw [Nat.two_pow_add_eq_or_of_lt hb]

theorem joinBytes (h : n ≤ MaxOperand)
    : ((FourBytesOperandFlag ||| n >>> 24) % 2 ^ 8 &&& FourBytesOperandMask) <<< 24 ||| (n >>> 16 % 2 ^ 8) <<< 16
        ||| (n >>> 8 % 2 ^ 8) <<< 8 ||| n % 2 ^ 8 = n := by
  have hmask : ∀ b : Fin 128, (FourBytesOperandFlag ||| b) % 2 ^ 8 &&& FourBytesOperandMask = b := by
    decide
  simp only [MaxOperand, OperandBits] at h
  simp only [Nat.shiftRight_eq_div_pow, Nat.shiftLeft_eq]
  have hfirst := hmask ⟨n / 2 ^ 24, by omega⟩
  simp only at hfirst
  rw [hfirst, or_eq_add (a := n / 2 ^ 24 * 2 ^ 24) 24 (by omega) (by omega),
    or_eq_add (a := n / 2 ^ 24 * 2 ^ 24 + _) 16 (by omega) (by omega), or_eq_add 8 (by omega) (by omega)]
  omega

theorem isOperand_long {operand : Nat} (h : operand ≤ MaxOperand)
    : IsOperand [BitVec.ofNat 8 (FourBytesOperandFlag ||| operand >>> 24), BitVec.ofNat 8 (operand >>> 16),
        BitVec.ofNat 8 (operand >>> 8), BitVec.ofNat 8 operand] operand := by
  have hflag := isFourBytesOperand_flag (operand >>> 24)
  intro rest
  constructor
  . rw [skipOperands, cons_append, headD_cons, if_pos hflag]
    rfl
  intro sn
  rw [SrcNoteReader.getOperand, SrcNoteReader.getOperandHead, skipOperands]
  simp only [cons_append, drop_succ_cons, drop_zero, headD_cons, hflag, if_true]
  exact joinBytes h

theorem isRepresentable_iff
    : ColSpan.isRepresentable colspan = true ↔ -2 ^ 30 ≤ colspan ∧ colspan < 2 ^ 30 := by
  rw [ColSpan.isRepresentable, decide_eq_true_iff, ColSpan.MinColSpan, ColSpan.MaxColSpan,
    show (ColSpan.ColSpanSignBit : Int) = 2 ^ 30 from rfl]
  omega

theorem xor_two_pow {n i : Nat} (h : n < 2 ^ i)
    : n ^^^ 2 ^ i = n + 2 ^ i := by
  rw [← Nat.or_two_pow_eq_add_of_lt h]
  apply Nat.eq_of_testBit_eq
  intro j
  rw [Nat.testBit_xor, Nat.testBit_or, Nat.testBit_two_pow]
  by_cases hj : i = j
  . rw [← hj, Nat.testBit_lt_two_pow h, Bool.false_xor, Bool.false_or]
  . rw [decide_eq_false hj, Bool.xor_false, Bool.or_false]

theorem fromOperand_toOperand (h : ColSpan.isRepresentable colspan = true)
    : ColSpan.fromOperand (ColSpan.toOperand colspan) = colspan := by
  obtain ⟨hmin, hmax⟩ := isRepresentable_iff.mp h
  have hmod : ColSpan.toOperand colspan = (colspan % 2 ^ 31).toNat := rfl
  rw [ColSpan.fromOperand, show ColSpan.ColSpanSignBit = 2 ^ 30 from rfl, hmod]
  by_cases hsign : colspan < 0
  . have hlow : (colspan + 2 ^ 30).toNat < 2 ^ 30 := by
      omega
    have hoperand : (colspan % 2 ^ 31).toNat = (colspan + 2 ^ 30).toNat ^^^ 2 ^ 30 := by
      rw [xor_two_pow hlow]
      omega
    rw [hoperand, Nat.xor_assoc, Nat.xor_self, Nat.xor_zero]
    omega
  . rw [xor_two_pow (by omega)]
    omega

end Operands

section Writer

open SrcNoteWriter

theorem AllocSrcNote_eq_some {notes notes' : SrcNotesVector}
    (h : AllocSrcNote notes sns = some notes')
    : notes' = notes ++ sns := by
  rw [AllocSrcNote] at h
  split at h
  . contradiction
  . exact (Option.some.inj h).symm

def deltas (ns : List Note) : Nat := (ns.map Note.delta).sum

theorem deltas_append (ns ns' : List Note)
    : deltas (ns ++ ns') = deltas ns + deltas ns' := by
  rw [deltas, map_append, sum_append]
  rfl

theorem writeNote_spec {type : SrcNoteType} {delta : Nat} {notes notes' : SrcNotesVector}
    (h : writeNote type delta notes = some notes')
    : ∃ bytes xdeltas delta', notes' = notes ++ bytes ++ [noteValue type delta'] ∧ Encodes bytes xdeltas
      ∧ (∀ n ∈ xdeltas, n.type = .xDelta) ∧ delta' < DeltaLimit ∧ deltas xdeltas + delta' = delta := by
  induction delta, notes using writeNote.induct with
  | case1 delta notes hlimit xdelta ih =>
    rw [writeNote, dif_pos hlimit, bind_eq_some] at h
    obtain ⟨notes₁, halloc, h⟩ := h
    obtain ⟨bytes, xdeltas, delta', rfl, hbytes, hxdeltas, hdelta', hsum⟩ := ih notes₁ h
    have hxdelta : xdelta ≤ XDeltaMask := Nat.min_le_right _ _
    refine ⟨[xDeltaValue xdelta] ++ bytes, [⟨.xDelta, xdelta, 0⟩] ++ xdeltas, delta', ?_, ?_, ?_, hdelta', ?_⟩
    . rw [AllocSrcNote_eq_some halloc, append_assoc notes]
    . have hxdeltaValue := encodes_note (xDeltaValue_spec hxdelta).2.2
        (by rw [arity, (xDeltaValue_spec hxdelta).1]; rfl)
      rw [(xDeltaValue_spec hxdelta).1, (xDeltaValue_spec hxdelta).2.1] at hxdeltaValue
      exact hxdeltaValue.append hbytes
    . intro n hn
      rcases mem_append.mp hn with hn | hn
      . rw [mem_singleton.mp hn]
      . exact hxdeltas n hn
    . have hle : xdelta ≤ delta := Nat.min_le_left _ _
      rw [deltas_append, show deltas [⟨.xDelta, xdelta, 0⟩] = xdelta from rfl]
      omega
  | case2 delta notes hlimit =>
    rw [writeNote, dif_neg hlimit] at h
    refine ⟨[], [], delta, ?_, encodes_nil, ?_, Nat.lt_of_not_le hlimit, Nat.zero_add _⟩
    . rw [AllocSrcNote_eq_some h, append_nil]
    . intro n hn
      cases hn

theorem writeOperand_spec {operand : Nat} {notes notes' : SrcNotesVector} (hoperand : operand ≤ MaxOperand)
    (h : writeOperand operand notes = some notes')
    : ∃ operands, notes' = notes ++ operands ∧ IsOperand operands operand := by
  rw [writeOperand] at h
  split at h
  . exact ⟨_, AllocSrcNote_eq_some h, isOperand_long hoperand⟩
  next hshort => exact ⟨_, AllocSrcNote_eq_some h, isOperand_short (Nat.le_of_not_lt hshort)⟩

end Writer

section Positions

def Note.apply (position : UInt32 × UInt32) (n : Note) : UInt32 × UInt32 :=
  match n.type with
  | .setLine => (UInt32.ofNat (SetLine.fromOperand n.operand), 0)
  | .newLine => (position.1 + 1, 0)
  | .colSpan => (position.1, UInt32.ofInt (position.2.toNat + ColSpan.fromOperand n.operand))
  | _ => position

def endPosition (startLine : UInt32) (ns : List Note) : UInt32 × UInt32 := ns.foldl Note.apply (startLine, 0)

def located : (offset : Nat) → List Note → List (Nat × Note)
  | _, [] => []
  | offset, n :: ns => (offset + n.delta, n) :: located (offset + n.delta) ns

def applyUpTo (target : Nat) (position : UInt32 × UInt32) (ns : List (Nat × Note)) : UInt32 × UInt32 :=
  ((ns.filter (·.1 ≤ target)).map Prod.snd).foldl Note.apply position

def positionAt (startLine : UInt32) (ns : List Note) (target : Nat) : UInt32 × UInt32 :=
  applyUpTo target (startLine, 0) (located 0 ns)

theorem located_append (offset : Nat) (ns ns' : List Note)
    : located offset (ns ++ ns') = located offset ns ++ located (offset + deltas ns) ns' := by
  induction ns generalizing offset with
  | nil => rfl
  | cons n ns ih =>
    rw [cons_append, located, located, ih, cons_append, Nat.add_assoc]
    rfl

theorem located_bounds {offset : Nat} (h : x ∈ located offset ns)
    : offset ≤ x.1 ∧ x.1 ≤ offset + deltas ns := by
  induction ns generalizing offset with
  | nil => cases h
  | cons n ns ih =>
    have hdeltas : deltas (n :: ns) = n.delta + deltas ns := rfl
    rw [located, mem_cons] at h
    rcases h with rfl | h
    . simp only
      omega
    . have hbounds := ih h
      omega

theorem map_snd_located (offset : Nat) (ns : List Note)
    : (located offset ns).map Prod.snd = ns := by
  induction ns generalizing offset with
  | nil => rfl
  | cons n ns ih => rw [located, map_cons, ih]

theorem applyUpTo_append (target : Nat) (position : UInt32 × UInt32) (ns ns' : List (Nat × Note))
    : applyUpTo target position (ns ++ ns') = applyUpTo target (applyUpTo target position ns) ns' := by
  rw [applyUpTo, filter_append, map_append, foldl_append]
  rfl

theorem applyUpTo_none {target offset : Nat} (position : UInt32 × UInt32) (h : target < offset)
    : applyUpTo target position (located offset ns) = position := by
  have hnil : (located offset ns).filter (·.1 ≤ target) = [] := by
    rw [filter_eq_nil_iff]
    intro x hx
    have hbounds := located_bounds hx
    simp only [decide_eq_true_eq]
    omega
  rw [applyUpTo, hnil]
  rfl

theorem applyUpTo_all {target offset : Nat} (position : UInt32 × UInt32) (h : offset + deltas ns ≤ target)
    : applyUpTo target position (located offset ns) = ns.foldl Note.apply position := by
  have hall : (located offset ns).filter (·.1 ≤ target) = located offset ns := by
    rw [filter_eq_self]
    intro x hx
    have hbounds := located_bounds hx
    simp only [decide_eq_true_eq]
    omega
  rw [applyUpTo, hall, map_snd_located]

theorem foldl_apply_xDeltas {ns : List Note} (position : UInt32 × UInt32) (h : ∀ n ∈ ns, n.type = .xDelta)
    : ns.foldl Note.apply position = position := by
  induction ns with
  | nil => rfl
  | cons n ns ih =>
    rw [foldl_cons, Note.apply, h n mem_cons_self]
    exact ih fun m hm => h m (mem_cons_of_mem n hm)

theorem applyUpTo_xDeltas {target : Nat} {ns : List (Nat × Note)} (position : UInt32 × UInt32)
    (h : ∀ n ∈ ns.map Prod.snd, n.type = .xDelta)
    : applyUpTo target position ns = position := by
  apply foldl_apply_xDeltas
  intro n hn
  apply h
  exact (filter_sublist.map Prod.snd).subset hn

theorem endPosition_concat {startLine : UInt32} (hxdeltas : ∀ n ∈ xdeltas, n.type = .xDelta)
    : endPosition startLine (ns ++ (xdeltas ++ [n])) = Note.apply (endPosition startLine ns) n := by
  rw [endPosition, foldl_append, foldl_append, foldl_apply_xDeltas _ hxdeltas]
  rfl

theorem applyUpTo_singleton (target offset : Nat) (position : UInt32 × UInt32) (n : Note)
    : applyUpTo target position (located offset [n])
      = if offset + n.delta ≤ target then Note.apply position n else position := by
  rw [located, located, applyUpTo]
  split
  next h => rw [filter_cons_of_pos (by simpa using h)]; rfl
  next h => rw [filter_cons_of_neg (by simpa using h)]; rfl

theorem positionAt_concat (target : Nat) (hxdeltas : ∀ n ∈ xdeltas, n.type = .xDelta)
    : positionAt startLine (ns ++ (xdeltas ++ [n])) target
      = if deltas ns + (deltas xdeltas + n.delta) ≤ target then Note.apply (endPosition startLine ns) n
        else positionAt startLine ns target := by
  have hmid : ∀ position offset, applyUpTo target position (located offset xdeltas) = position := by
    intro position offset
    apply applyUpTo_xDeltas
    rw [map_snd_located]
    exact hxdeltas
  rw [positionAt, located_append, located_append, applyUpTo_append, applyUpTo_append, hmid, applyUpTo_singleton,
    Nat.zero_add, Nat.add_assoc]
  split
  next h =>
    rw [applyUpTo_all _ (by omega)]
    rfl
  next => rfl

theorem loop_cons (target offset : Nat) (lineno column : UInt32) (sn : SrcNotePtr) (iter : List SrcNotePtr)
    : PCToLineNumber.loop target offset lineno column (sn :: iter)
      = if offset + ptrDelta sn > target then (lineno, column)
        else PCToLineNumber.loop target (offset + ptrDelta sn) (Note.apply (lineno, column) (Note.ofPtr sn)).1
          (Note.apply (lineno, column) (Note.ofPtr sn)).2 iter := by
  rw [PCToLineNumber.loop]
  split
  . rfl
  . cases hcases : ptrType sn <;>
      simp only [Note.apply, hcases, Note.ofPtr, SrcNoteType.arity, SetLine.getLine, ColSpan.getSpan] <;> rfl

theorem loop_eq_applyUpTo (target offset : Nat) (lineno column : UInt32) (sns : List SrcNotePtr)
    : PCToLineNumber.loop target offset lineno column sns
      = applyUpTo target (lineno, column) (located offset (sns.map Note.ofPtr)) := by
  induction sns generalizing offset lineno column with
  | nil => rfl
  | cons sn iter ih =>
    have hone := applyUpTo_singleton target offset (lineno, column) (Note.ofPtr sn)
    rw [loop_cons, ih, map_cons, ← singleton_append, located_append, applyUpTo_append, hone]
    have hdelta : offset + deltas [Note.ofPtr sn] = offset + ptrDelta sn := rfl
    split
    next h =>
      rw [if_neg (by exact Nat.not_le_of_lt h), hdelta, applyUpTo_none _ h]
    next h =>
      rw [if_pos (by exact Nat.le_of_not_lt h), hdelta]

theorem PCToLineNumber_eq (startLine : UInt32) (notes : SrcNotesVector) (target : Nat)
    : PCToLineNumber startLine notes target = (notesOf notes).map (positionAt startLine · target) := by
  rw [PCToLineNumber, notesOf, Option.map_map]
  congr 1
  funext sns
  exact loop_eq_applyUpTo target 0 startLine 0 sns

end Positions

end SpiderMonkey
