import Mathlib.Data.Int.NatAbs
import Mathlib.Data.List.Basic

/-!
This module contains byte streams: what a writer appends, what a reader takes, and how the two compose.
-/

namespace ByteStream

open List

structure Cursor where
  data : List (BitVec 8)
  pos : Nat
  stop : Nat

abbrev Reader := StateT Cursor Option

def byte : Reader (BitVec 8) := fun r =>
  if r.pos < r.stop then r.data[r.pos]?.map fun b => (b, { r with pos := r.pos + 1 }) else none

def At (data : List (BitVec 8)) (pos : Nat) (bytes : List (BitVec 8)) : Prop := bytes <+: data.drop pos

def Reads {α : Type} (m : Reader α) (bytes : List (BitVec 8)) (a : α) : Prop :=
  ∀ data pos stop, At data pos bytes → pos + bytes.length ≤ stop
    → m ⟨data, pos, stop⟩ = some (a, ⟨data, pos + bytes.length, stop⟩)

def Writes (f : List (BitVec 8) → Option (List (BitVec 8))) (bytes : List (BitVec 8)) : Prop :=
  ∀ w, f w = some (w ++ bytes)

section At

variable {data as bs : List (BitVec 8)} {pos : Nat}

@[simp]
theorem at_nil
    : At data pos [] :=
  nil_prefix

theorem at_append
    : At data pos (as ++ bs) ↔ At data pos as ∧ At data (pos + as.length) bs := by
  constructor
  . rintro ⟨rest, hrest⟩
    refine ⟨⟨bs ++ rest, by rw [← hrest, append_assoc]⟩, rest, ?_⟩
    rw [← drop_drop, ← hrest, append_assoc, drop_left]
  rintro ⟨⟨rest, hrest⟩, ⟨rest', hrest'⟩⟩
  refine ⟨rest', ?_⟩
  rw [← drop_drop, ← hrest, drop_left] at hrest'
  rw [append_assoc, hrest', hrest]

theorem at_length
    : At (as ++ bs) as.length bs := by
  refine ⟨[], ?_⟩
  rw [append_nil, drop_left]

theorem At.append_left (rest : List (BitVec 8)) (h : At data pos bs)
    : At (rest ++ data) (rest.length + pos) bs := by
  rw [At, drop_length_add_append]
  exact h

theorem At.getElem? (h : At data pos (b :: bs))
    : data[pos]? = some b := by
  obtain ⟨rest, hrest⟩ := h
  have := congrArg (·[0]?) hrest
  simpa using this.symm

theorem at_cons
    : At data pos (b :: bs) ↔ data[pos]? = some b ∧ At data (pos + 1) bs := by
  constructor
  . intro h
    exact ⟨h.getElem?, (at_append.mp (show At data pos ([b] ++ bs) from h)).right⟩
  rintro ⟨hget, h⟩
  show At data pos ([b] ++ bs)
  refine at_append.mpr ⟨?_, h⟩
  obtain ⟨hlt, heq⟩ := List.getElem?_eq_some_iff.mp hget
  refine ⟨data.drop (pos + 1), ?_⟩
  rw [drop_eq_getElem_cons hlt, heq]
  rfl

end At

theorem byte_eq_some_iff {data : List (BitVec 8)} {pos stop : Nat}
    : byte ⟨data, pos, stop⟩ = some (b, c) ↔ pos < stop ∧ data[pos]? = some b ∧ c = ⟨data, pos + 1, stop⟩ := by
  unfold byte
  dsimp only
  split
  next h =>
    rw [Option.map_eq_some_iff]
    constructor
    . rintro ⟨b', hget, heq⟩
      cases heq
      exact ⟨h, hget, rfl⟩
    . rintro ⟨_, hget, rfl⟩
      exact ⟨b, hget, rfl⟩
  next h =>
    constructor
    . intro hnone
      cases hnone
    . rintro ⟨hlt, _⟩
      exact absurd hlt h

theorem bind_eq_some_iff {α β : Type} {m : Reader α} {k : α → Reader β} {c : Cursor} {r : β × Cursor}
    : (m >>= k) c = some r ↔ ∃ a c', m c = some (a, c') ∧ k a c' = some r := by
  show (m c).bind (fun s => k s.1 s.2) = some r ↔ _
  rw [Option.bind_eq_some_iff]
  constructor
  . rintro ⟨⟨a, c'⟩, hm, hk⟩
    exact ⟨a, c', hm, hk⟩
  . rintro ⟨a, c', hm, hk⟩
    exact ⟨(a, c'), hm, hk⟩

theorem pure_eq_some_iff {α : Type} {a v : α}
    : (pure a : Reader α) c = some (v, c') ↔ v = a ∧ c' = c := by
  constructor
  . intro heq
    cases heq
    exact ⟨rfl, rfl⟩
  . rintro ⟨rfl, rfl⟩
    rfl

section Reads

variable {α β : Type} {m : Reader α} {k : α → Reader β} {as bs : List (BitVec 8)} {a : α} {b : β}

theorem reads_byte (x : BitVec 8)
    : Reads byte [x] x := by
  intro data pos stop hat hstop
  have hlt : pos < stop := hstop
  simp [byte, hlt, hat.getElem?]

theorem reads_pure
    : Reads (pure a) [] a := by
  intro data pos stop _ _
  rfl

theorem reads_guard [Decidable p] (h : p)
    : Reads (guard p) [] () := by
  intro data pos stop _ _
  simp only [guard, h, ↓reduceIte]
  rfl

theorem Reads.bind (hm : Reads m as a) (hk : Reads (k a) bs b)
    : Reads (m >>= k) (as ++ bs) b := by
  intro data pos stop hat hstop
  rw [length_append] at hstop
  have hat := at_append.mp hat
  have hfirst := hm data pos stop hat.left (by omega)
  have hsecond := hk data (pos + as.length) stop hat.right (by omega)
  calc
    (m >>= k) ⟨data, pos, stop⟩ = (m ⟨data, pos, stop⟩).bind fun r => k r.1 r.2 := rfl
    _ = some (b, ⟨data, pos + as.length + bs.length, stop⟩) := by rw [hfirst]; exact hsecond
    _ = _ := by rw [length_append, Nat.add_assoc]

end Reads

section Writes

variable {f g : List (BitVec 8) → Option (List (BitVec 8))} {as bs : List (BitVec 8)}

theorem writes_some
    : Writes some [] := by
  intro w
  rw [append_nil]

theorem Writes.bind (hf : Writes f as) (hg : Writes g bs)
    : Writes (fun w => (f w).bind g) (as ++ bs) := by
  intro w
  simp only [hf w, Option.bind_some, hg (w ++ as), append_assoc]

end Writes

end ByteStream
