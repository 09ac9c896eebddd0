import Mathlib.Order.Basic
import SpiderMonkey.Frontend.Lemmas.SourceNotes

/-!
This module contains what the search for the bytecode of a line finds.
-/

namespace SpiderMonkey

open List
open SrcNote

structure NotedLine where
  offset : Nat
  line : UInt32
deriving DecidableEq

def notedLines : (offset : Nat) → (line : UInt32) → List Note → List NotedLine
  | offset, line, [] => [⟨offset, line⟩]
  | offset, line, n :: ns => ⟨offset, line⟩ :: notedLines (offset + n.delta) (Note.apply (line, 0) n).1 ns

def linesBefore : (offset : Nat) → (line : UInt32) → List Note → List NotedLine
  | _, _, [] => []
  | offset, line, n :: ns => ⟨offset, line⟩ :: linesBefore (offset + n.delta) (Note.apply (line, 0) n).1 ns

def lastLine : (offset : Nat) → (line : UInt32) → List Note → NotedLine
  | offset, line, [] => ⟨offset, line⟩
  | offset, line, n :: ns => lastLine (offset + n.delta) (Note.apply (line, 0) n).1 ns

def lineOf (script : JSScript) (offset : Nat) : Option UInt32 :=
  (PCToLineNumber script.lineno script.notes offset).map Prod.fst

def IsNoted (ns : List Note) (offset : Nat) : Prop := offset = 0 ∨ offset ∈ (located 0 ns).map Prod.fst

section Positions

theorem apply_fst (line column column' : UInt32) (n : Note)
    : (Note.apply (line, column) n).1 = (Note.apply (line, column') n).1 := by
  obtain ⟨type, delta, operand⟩ := n
  cases type <;> rfl

theorem offset_le_of_mem_notedLines {offset : Nat} {line : UInt32}
    (h : p ∈ notedLines offset line ns)
    : offset ≤ p.offset := by
  induction ns generalizing offset line with
  | nil =>
    rw [notedLines, mem_singleton] at h
    exact Nat.le_of_eq (congrArg NotedLine.offset h.symm)
  | cons n ns ih =>
    rw [notedLines, mem_cons] at h
    rcases h with rfl | h
    . exact Nat.le_refl _
    . exact Nat.le_trans (Nat.le_add_right _ _) (ih h)

theorem notedLines_eq (offset : Nat) (line : UInt32) (ns : List Note)
    : notedLines offset line ns = linesBefore offset line ns ++ [lastLine offset line ns] := by
  induction ns generalizing offset line with
  | nil => rfl
  | cons n ns ih =>
    rw [notedLines, linesBefore, lastLine, ih]
    rfl

theorem map_offset_notedLines (offset : Nat) (line : UInt32) (ns : List Note)
    : (notedLines offset line ns).map NotedLine.offset = offset :: (located offset ns).map Prod.fst := by
  induction ns generalizing offset line with
  | nil => rfl
  | cons n ns ih =>
    rw [notedLines, map_cons, ih]
    rfl

theorem applyUpTo_notedLines {target offset : Nat} (line column : UInt32) (ns : List Note) (h : offset ≤ target)
    : ∃ q ∈ notedLines offset line ns, q.line = (applyUpTo target (line, column) (located offset ns)).1
      ∧ q.offset ≤ target ∧ ∀ p ∈ notedLines offset line ns, p.offset ≤ target → p.offset ≤ q.offset := by
  induction ns generalizing offset line column with
  | nil =>
    refine ⟨⟨offset, line⟩, mem_singleton_self _, rfl, h, ?_⟩
    intro p hp _
    exact Nat.le_of_eq (congrArg NotedLine.offset (mem_singleton.mp hp))
  | cons n ns ih =>
    have hdelta : offset + deltas [n] = offset + n.delta := rfl
    rw [← singleton_append, located_append, applyUpTo_append, applyUpTo_singleton, hdelta, singleton_append, notedLines]
    by_cases hpast : offset + n.delta ≤ target
    . rw [if_pos hpast]
      obtain ⟨q, hq, hline, hqle, hlast⟩ := ih (Note.apply (line, column) n).1 (Note.apply (line, column) n).2 hpast
      rw [apply_fst line 0 column]
      refine ⟨q, mem_cons_of_mem _ hq, hline, hqle, ?_⟩
      intro p hp hple
      rcases mem_cons.mp hp with rfl | hp
      . exact Nat.le_trans (Nat.le_add_right _ _) (offset_le_of_mem_notedLines hq)
      . exact hlast p hp hple
    . rw [if_neg hpast, applyUpTo_none _ (Nat.lt_of_not_le hpast)]
      refine ⟨⟨offset, line⟩, mem_cons_self, rfl, h, ?_⟩
      intro p hp hple
      rcases mem_cons.mp hp with rfl | hp
      . exact Nat.le_refl _
      . exact absurd (Nat.le_trans (offset_le_of_mem_notedLines hp) hple) hpast

theorem isNoted_iff {ns : List Note} (line : UInt32)
    : IsNoted ns offset ↔ ∃ p ∈ notedLines 0 line ns, p.offset = offset := by
  rw [← mem_map, map_offset_notedLines, mem_cons]
  rfl

-- What is told of a noted offset is the line of the last position there.
theorem exists_told {script : JSScript} (h : notesOf script.notes = some ns) (hnoted : IsNoted ns offset)
    : ∃ q ∈ notedLines 0 script.lineno ns, q.offset = offset ∧ lineOf script offset = some q.line := by
  obtain ⟨p, hp, rfl⟩ := (isNoted_iff script.lineno).mp hnoted
  obtain ⟨q, hq, hline, hqle, hlast⟩ := applyUpTo_notedLines script.lineno 0 ns (Nat.zero_le p.offset)
  refine ⟨q, hq, Nat.le_antisymm hqle (hlast p hp (Nat.le_refl _)), ?_⟩
  rw [lineOf, PCToLineNumber_eq, h, Option.map_some, Option.map_some, positionAt, ← hline]

theorem applyUpTo_lastLine {target offset : Nat} (line column : UInt32) (ns : List Note)
    (h : (lastLine offset line ns).offset ≤ target)
    : (applyUpTo target (line, column) (located offset ns)).1 = (lastLine offset line ns).line := by
  induction ns generalizing offset line column with
  | nil => rfl
  | cons n ns ih =>
    have hdelta : offset + deltas [n] = offset + n.delta := rfl
    have hmem : lastLine (offset + n.delta) (Note.apply (line, 0) n).1 ns
        ∈ notedLines (offset + n.delta) (Note.apply (line, 0) n).1 ns := by
      rw [notedLines_eq]
      exact mem_append_right _ (mem_singleton_self _)
    rw [lastLine] at h ⊢
    rw [← singleton_append, located_append, applyUpTo_append, applyUpTo_singleton, hdelta,
      if_pos (Nat.le_trans (offset_le_of_mem_notedLines hmem) h), ← ih _ (Note.apply (line, column) n).2 h,
      apply_fst line 0 column]

theorem lineOf_lastLine {script : JSScript} (h : notesOf script.notes = some ns)
    : lineOf script (lastLine 0 script.lineno ns).offset = some (lastLine 0 script.lineno ns).line := by
  rw [lineOf, PCToLineNumber_eq, h, Option.map_some, Option.map_some, positionAt,
    applyUpTo_lastLine script.lineno 0 ns (Nat.le_refl _)]

end Positions

section Search

variable {mainOffset : Nat} {target : UInt32}

def Exact (mainOffset : Nat) (target : UInt32) (p : NotedLine) : Prop := p.line = target ∧ mainOffset ≤ p.offset

instance (p : NotedLine) : Decidable (Exact mainOffset target p) :=
  inferInstanceAs (Decidable (p.line = target ∧ mainOffset ≤ p.offset))

def Above (target : UInt32) (p : NotedLine) : Prop := target ≤ p.line ∧ p.line - target < UInt32.ofNat MaxOperand

inductive Best (target : UInt32) (seen : List NotedLine) : (best : Option Nat) → (bestdiff : UInt32) → Prop where
  | none : (∀ p ∈ seen, ¬ Above target p) → Best target seen .none (UInt32.ofNat MaxOperand)
  | some (p : NotedLine) : p ∈ seen → Above target p → (∀ q ∈ seen, Above target q → p.line ≤ q.line)
    → Best target seen (.some p.offset) (p.line - target)

theorem sub_lt_sub_iff (ha : target ≤ a) (hb : target ≤ b)
    : a - target < b - target ↔ a < b := by
  rw [UInt32.lt_iff_toNat_lt, UInt32.lt_iff_toNat_lt, UInt32.toNat_sub_of_le _ _ ha, UInt32.toNat_sub_of_le _ _ hb]
  rw [UInt32.le_iff_toNat_le] at ha hb
  omega

theorem Best.next {seen : List NotedLine} (p : NotedLine) (h : Best target seen best bestdiff)
    : Best target (seen ++ [p]) (if p.line ≥ target ∧ p.line - target < bestdiff then .some p.offset else best)
        (if p.line ≥ target ∧ p.line - target < bestdiff then p.line - target else bestdiff) := by
  have hlast : p ∈ seen ++ [p] := mem_append_right _ (mem_singleton_self p)
  cases h with
  | none hnone =>
    by_cases habove : p.line ≥ target ∧ p.line - target < UInt32.ofNat MaxOperand
    . rw [if_pos habove, if_pos habove]
      apply Best.some p hlast habove
      intro q hq hqabove
      rcases mem_append.mp hq with hq | hq
      . exact absurd hqabove (hnone q hq)
      . rw [mem_singleton.mp hq]
        exact UInt32.le_refl _
    rw [if_neg habove, if_neg habove]
    apply Best.none
    intro q hq
    rcases mem_append.mp hq with hq | hq
    . exact hnone q hq
    . rw [mem_singleton.mp hq]
      exact habove
  | some q hq hqabove hleast =>
    by_cases hcloser : p.line ≥ target ∧ p.line - target < q.line - target
    . rw [if_pos hcloser, if_pos hcloser]
      have hlt : p.line < q.line := (sub_lt_sub_iff hcloser.1 hqabove.1).mp hcloser.2
      apply Best.some p hlast ⟨hcloser.1, UInt32.lt_trans hcloser.2 hqabove.2⟩
      intro r hr hrabove
      rcases mem_append.mp hr with hr | hr
      . exact UInt32.le_trans (UInt32.le_of_lt hlt) (hleast r hr hrabove)
      . rw [mem_singleton.mp hr]
        exact UInt32.le_refl _
    rw [if_neg hcloser, if_neg hcloser]
    apply Best.some q (mem_append_left _ hq) hqabove
    intro r hr hrabove
    rcases mem_append.mp hr with hr | hr
    . exact hleast r hr hrabove
    rw [mem_singleton.mp hr] at hrabove ⊢
    apply UInt32.not_lt.mp
    intro hlt
    exact hcloser ⟨hrabove.1, (sub_lt_sub_iff hrabove.1 hqabove.1).mpr hlt⟩

theorem search_cons (sn : SrcNotePtr) (iter : List SrcNotePtr) (offset : Nat) (line : UInt32) (best : Option Nat)
    (bestdiff : UInt32) (hexact : ¬ (line = target ∧ offset ≥ mainOffset))
    : LineNumberToPC.loop mainOffset target offset line best bestdiff (sn :: iter)
      = LineNumberToPC.loop mainOffset target (offset + ptrDelta sn) (Note.apply (line, 0) (Note.ofPtr sn)).1
        (if line ≥ target ∧ line - target < bestdiff then .some offset else best)
        (if line ≥ target ∧ line - target < bestdiff then line - target else bestdiff) iter := by
  rw [LineNumberToPC.loop, if_neg hexact]
  cases hcases : ptrType sn <;>
    simp only [Note.apply, hcases, Note.ofPtr, SrcNoteType.arity, SetLine.getLine, if_true, Nat.one_ne_zero, if_false]

theorem search_spec (mainOffset : Nat) (sns : List SrcNotePtr) (offset : Nat) (line : UInt32) (best : Option Nat) (bestdiff : UInt32)
    (seen : List NotedLine) (hbest : Best target seen best bestdiff)
    : (∃ q ∈ linesBefore offset line (sns.map Note.ofPtr), Exact mainOffset target q
        ∧ LineNumberToPC.loop mainOffset target offset line best bestdiff sns = q.offset)
      ∨ (∀ q ∈ linesBefore offset line (sns.map Note.ofPtr), ¬ Exact mainOffset target q)
        ∧ ∃ best' bestdiff', Best target (seen ++ linesBefore offset line (sns.map Note.ofPtr)) best' bestdiff'
          ∧ LineNumberToPC.loop mainOffset target offset line best bestdiff sns
            = best'.getD (lastLine offset line (sns.map Note.ofPtr)).offset := by
  induction sns generalizing offset line best bestdiff seen with
  | nil =>
    refine Or.inr ⟨fun q hq => absurd hq not_mem_nil, best, bestdiff, ?_, ?_⟩
    . rw [map_nil, linesBefore, append_nil]
      exact hbest
    . cases best <;> rfl
  | cons sn iter ih =>
    rw [map_cons, linesBefore, lastLine]
    by_cases hexact : line = target ∧ offset ≥ mainOffset
    . refine Or.inl ⟨⟨offset, line⟩, mem_cons_self, hexact, ?_⟩
      rw [LineNumberToPC.loop, if_pos hexact]
    rw [search_cons sn iter offset line best bestdiff hexact]
    rcases ih (offset + ptrDelta sn) (Note.apply (line, 0) (Note.ofPtr sn)).1 _ _ _ (hbest.next ⟨offset, line⟩)
      with ⟨q, hq, hqexact, hloop⟩ | ⟨hnone, best', bestdiff', hbest', hloop⟩
    . exact Or.inl ⟨q, mem_cons_of_mem _ hq, hqexact, hloop⟩
    refine Or.inr ⟨?_, best', bestdiff', ?_, hloop⟩
    . intro q hq
      rcases mem_cons.mp hq with rfl | hq
      . exact hexact
      . exact hnone q hq
    . rw [append_cons]
      exact hbest'

end Search

theorem Exact.above {p : NotedLine} (h : Exact mainOffset target p) : Above target p := by
  rw [Above, h.1, UInt32.sub_self]
  exact ⟨UInt32.le_refl _, by decide⟩

theorem Above.le {p : NotedLine} {line : UInt32} (h : Above target p) (hle : target ≤ line)
    (hnot : ¬ line - target < UInt32.ofNat MaxOperand) : p.line ≤ line := by
  obtain ⟨habove, hnear⟩ := h
  rw [UInt32.not_lt] at hnot
  have hlt := UInt32.lt_of_lt_of_le hnear hnot
  exact UInt32.le_of_lt ((sub_lt_sub_iff habove hle).mp hlt)

def AsGood (mainOffset : Nat) (p q : NotedLine) : Prop :=
  p.line < q.line ∨ p.line = q.line ∧ (mainOffset ≤ q.offset → mainOffset ≤ p.offset)

-- The lines that the search tests and that may answer it are told of their offsets, and the line after the last note,
-- which it does not test, is no better answer than those it tests.
structure Told (script : JSScript) (ns : List Note) (target : UInt32) : Prop where
  told : ∀ p ∈ linesBefore 0 script.lineno ns, Above target p → lineOf script p.offset = some p.line
  last : (∃ p ∈ linesBefore 0 script.lineno ns, Above target p) → Above target (lastLine 0 script.lineno ns)
    → ∃ p ∈ linesBefore 0 script.lineno ns, Above target p ∧ AsGood script.mainOffset p (lastLine 0 script.lineno ns)

def twoLines : JSScript where
  lineno := 5
  notes := [noteValue .setLine 3, 9, noteValue .breakpoint 1, terminator]
  mainOffset := 3

end SpiderMonkey
