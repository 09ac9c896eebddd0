import SpiderMonkey.Lib.OptionBind
import Mathlib.Data.List.Forall2

/-!
This module contains pointers into a range of elements. A pointer keeps the elements it has passed and those it
has not, so every access outside the range is an access to a missing element and yields `none`.
-/

structure RangedPtr (α : Type) where
  -- The elements of `[begin, current)`, the nearest first.
  before : List α
  -- The elements of `[current, end)`.
  after : List α
deriving Repr, DecidableEq

namespace RangedPtr

open List RangedPtr

variable {α : Type}

def ofList (xs : List α) : RangedPtr α := ⟨[], xs⟩

def isEnd (p : RangedPtr α) : Bool := p.after.isEmpty

def remaining (p : RangedPtr α) : Nat := p.after.length

def deref (p : RangedPtr α) : Option α := p.after.head?

def get (p : RangedPtr α) (i : Nat) : Option α := p.after[i]?

def inc (p : RangedPtr α) : Option (RangedPtr α) :=
  match p.after with
  | [] => none
  | x :: xs => some ⟨x :: p.before, xs⟩

def dec (p : RangedPtr α) : Option (RangedPtr α) :=
  match p.before with
  | [] => none
  | x :: xs => some ⟨xs, x :: p.after⟩

def add (p : RangedPtr α) (n : Nat) : Option (RangedPtr α) :=
  if p.after.length < n then none else some ⟨(p.after.take n).reverse ++ p.before, p.after.drop n⟩

def since (p start : RangedPtr α) : List α := start.after.take (p.before.length - start.before.length)

def skipWhile (test : α → Bool) (p : RangedPtr α) : RangedPtr α :=
  go p.before p.after
where
  go (before : List α) : List α → RangedPtr α
    | [] => ⟨before, []⟩
    | x :: xs => if test x then go (x :: before) xs else ⟨before, x :: xs⟩

def pass (p : RangedPtr α) : List (α → Bool) → Nat → Option Bool
  | [], _ => some true
  | test :: tests, i => do
    let x ← p.get i
    if test x then p.pass tests (i + 1) else some false

def passAll (p : RangedPtr α) (tests : List (α → Bool)) (i : Nat) : Option Bool :=
  if p.remaining < i + tests.length then some false else p.pass tests i

structure Past (p : RangedPtr α) (w : List α) (q : RangedPtr α) : Prop where
  after : p.after = w ++ q.after
  before : q.before = w.reverse ++ p.before

namespace Past

variable {p q r : RangedPtr α} {w w' : List α} {x : α}

theorem refl (p : RangedPtr α) : p.Past [] p := ⟨rfl, rfl⟩

theorem trans (h : p.Past w q) (h' : q.Past w' r) : p.Past (w ++ w') r := by
  constructor
  . rw [h.after, h'.after, append_assoc]
  . rw [h'.before, h.before, reverse_append, append_assoc]

theorem exists_of_after {rest : List α} (h : p.after = w ++ rest) : ∃ q, p.Past w q ∧ q.after = rest :=
  ⟨⟨w.reverse ++ p.before, rest⟩, ⟨h, rfl⟩, rfl⟩

theorem exists_split (h : p.Past (w ++ w') q) : ∃ m, p.Past w m ∧ m.Past w' q := by
  obtain ⟨m, hm, hafter⟩ := exists_of_after (h.after.trans (append_assoc _ _ _))
  refine ⟨m, hm, hafter, ?_⟩
  rw [h.before, hm.before, reverse_append, append_assoc]

theorem exists_cons (h : p.Past (x :: w) q) : ∃ m, p.Past [x] m ∧ m.Past w q :=
  exists_split (w := [x]) h

theorem unique (h : p.Past w q) (h' : p.Past w r) : q = r := by
  obtain ⟨before, after⟩ := q
  obtain ⟨before', after'⟩ := r
  have hbefore := h.before.trans h'.before.symm
  have hafter := append_cancel_left (h.after.symm.trans h'.after)
  cases hbefore
  cases hafter
  rfl

theorem length (h : p.Past w q) : p.after.length = w.length + q.after.length := by
  rw [h.after, length_append]

theorem since (h : p.Past w q) : q.since p = w := by
  rw [RangedPtr.since, h.before, h.after, length_append, length_reverse, Nat.add_sub_cancel, take_left]

theorem head (h : p.Past (x :: w) q) : p.after = x :: (w ++ q.after) := h.after

theorem inc (h : p.Past [x] q) : p.inc = some q := by
  obtain ⟨before, after⟩ := q
  have hbefore := h.before
  rw [inc, h.head]
  cases hbefore
  rfl

theorem dec (h : p.Past [x] q) : q.dec = some p := by
  obtain ⟨before, after⟩ := p
  have hafter := h.head
  rw [dec, h.before]
  cases hafter
  rfl

theorem add (h : p.Past w q) : p.add w.length = some q := by
  obtain ⟨before, after⟩ := q
  have hbefore := h.before
  rw [add, if_neg, h.after, take_left, drop_left]
  . cases hbefore
    rfl
  . rw [h.length]
    omega

end Past

theorem skipWhile_go (test : α → Bool) (before xs : List α)
    : skipWhile.go test before xs = ⟨(xs.takeWhile test).reverse ++ before, xs.dropWhile test⟩ := by
  induction xs generalizing before with
  | nil => rfl
  | cons x xs ih =>
    rw [skipWhile.go, takeWhile_cons, dropWhile_cons]
    split
    . rw [ih, reverse_cons, append_assoc, singleton_append]
    . rfl

theorem skipWhile_past (test : α → Bool) (p : RangedPtr α)
    : p.Past (p.after.takeWhile test) (p.skipWhile test) := by
  rw [skipWhile, skipWhile_go]
  exact ⟨takeWhile_append_dropWhile.symm, rfl⟩

theorem skipWhile_after (test : α → Bool) (p : RangedPtr α)
    : (p.skipWhile test).after = p.after.dropWhile test := by
  rw [skipWhile, skipWhile_go]

theorem skipWhile_head (test : α → Bool) (p : RangedPtr α) {x : α} {xs : List α}
    (h : (p.skipWhile test).after = x :: xs) : test x = false := by
  rw [skipWhile_after] at h
  have := List.head?_dropWhile_not test p.after
  rw [h] at this
  simpa using this

theorem Past.skipWhile {test : α → Bool} {p q : RangedPtr α} (h : p.Past w q)
    (hw : ∀ x ∈ w, test x = true) (hrest : ∀ x, q.after.head? = some x → test x = false)
    : p.skipWhile test = q := by
  obtain ⟨before, after⟩ := q
  have hbefore := h.before
  have hdrop : after.dropWhile test = after ∧ after.takeWhile test = [] := by
    cases after with
    | nil => exact ⟨rfl, rfl⟩
    | cons x xs =>
      have := hrest x rfl
      rw [dropWhile_cons_of_neg (by rw [this]; exact Bool.false_ne_true),
        takeWhile_cons_of_neg (by rw [this]; exact Bool.false_ne_true)]
      exact ⟨rfl, rfl⟩
  rw [RangedPtr.skipWhile, skipWhile_go, h.after, takeWhile_append_of_pos hw, dropWhile_append_of_pos hw,
    hdrop.1, hdrop.2, append_nil]
  cases hbefore
  rfl

theorem deref_eq {p : RangedPtr α} (h : p.after = x :: xs) : p.deref = some x := by
  rw [deref, h, List.head?_cons]

theorem isEnd_iff {p : RangedPtr α} : p.isEnd = true ↔ p.after = [] := List.isEmpty_iff

theorem isEnd_eq_false {p : RangedPtr α} (h : p.after = x :: xs) : p.isEnd = false := by
  rw [isEnd, h, isEmpty_cons]

theorem add_isSome {p : RangedPtr α} (h : n ≤ p.after.length) : ∃ q, p.add n = some q := by
  rw [add, if_neg (by omega)]
  exact ⟨_, rfl⟩

theorem pass_eq {p : RangedPtr α} {i : Nat} (h : i + tests.length ≤ p.after.length)
    : ∃ b, p.pass tests i = some b ∧
        (b = true ↔ ∃ w rest, p.after.drop i = w ++ rest ∧ List.Forall₂ (fun test x => test x = true) tests w) := by
  induction tests generalizing i with
  | nil =>
    refine ⟨true, rfl, ?_⟩
    simp only [true_iff]
    exact ⟨[], p.after.drop i, rfl, .nil⟩
  | cons test tests ih =>
    rw [length_cons] at h
    have hi : i < p.after.length := by omega
    obtain ⟨b, hb, hiff⟩ := @ih (i + 1) (by omega)
    rw [pass, get, List.getElem?_eq_getElem hi, some_bind]
    split
    . next ht =>
      refine ⟨b, hb, hiff.trans ?_⟩
      rw [drop_eq_getElem_cons hi]
      constructor
      . rintro ⟨w, rest, hw, htests⟩
        exact ⟨p.after[i] :: w, rest, by rw [hw, cons_append], .cons ht htests⟩
      . rintro ⟨_, rest, hw, _ | ⟨_, htests⟩⟩
        exact ⟨_, rest, (List.cons.inj hw).2, htests⟩
    . next ht =>
      refine ⟨false, rfl, ?_⟩
      simp only [Bool.false_eq_true, false_iff]
      rw [drop_eq_getElem_cons hi]
      rintro ⟨_, rest, hw, _ | ⟨hx, _⟩⟩
      rw [(List.cons.inj hw).1] at ht
      exact ht hx

theorem passAll_eq {p : RangedPtr α} (tests : List (α → Bool)) {i : Nat} (hi : i ≤ p.after.length)
    : ∃ b, p.passAll tests i = some b ∧
        (b = true ↔ ∃ w rest, p.after.drop i = w ++ rest ∧ List.Forall₂ (fun test x => test x = true) tests w) := by
  rw [passAll, remaining]
  split
  . next hlt =>
    refine ⟨false, rfl, ?_⟩
    simp only [Bool.false_eq_true, false_iff]
    rintro ⟨w, rest, hw, htests⟩
    have := congrArg List.length hw
    rw [length_drop, length_append, ← htests.length_eq] at this
    omega
  . next hle => exact pass_eq (by omega)

end RangedPtr
