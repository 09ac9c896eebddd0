import Mathlib.Data.Nat.Init

/-!
This module contains sets of small numbers, kept as the bits of an array of words.
-/

namespace BitSet

open BitVec

variable {w n : Nat}

def word (words : Vector (BitVec w) n) (index : Nat) : BitVec w := words[index / w]?.getD 0#w

def bit (w index : Nat) : BitVec w := 1#w <<< (index % w)

def contains (words : Vector (BitVec w) n) (index : Nat) : Bool := word words index &&& bit w index != 0#w

def insert (words : Vector (BitVec w) n) (index : Nat) : Vector (BitVec w) n :=
  words.setIfInBounds (index / w) (word words index ||| bit w index)

def remove (words : Vector (BitVec w) n) (index : Nat) : Vector (BitVec w) n :=
  words.setIfInBounds (index / w) (word words index &&& ~~~bit w index)

theorem getLsbD_bit (hw : 0 < w) (index i : Nat)
    : (bit w index).getLsbD i = decide (i = index % w) := by
  have hlt := Nat.mod_lt index hw
  unfold bit
  simp only [getLsbD_shiftLeft, getLsbD_one]
  by_cases h : i = index % w
  . subst h
    simp [hlt]
    omega
  . simp [h]
    omega

theorem contains_eq_getLsbD (hw : 0 < w) (words : Vector (BitVec w) n) (index : Nat)
    : contains words index = (word words index).getLsbD (index % w) := by
  have hlt := Nat.mod_lt index hw
  unfold contains
  generalize word words index = x
  cases h : x.getLsbD (index % w) with
  | false =>
    have hzero : x &&& bit w index = 0#w := by
      apply eq_of_getLsbD_eq
      intro i _
      rw [getLsbD_and, getLsbD_bit hw]
      by_cases hi : i = index % w
      . rw [hi, h]
        simp
      . simp [hi]
    rw [hzero]
    simp
  | true =>
    have hone : (x &&& bit w index).getLsbD (index % w) = true := by
      rw [getLsbD_and, getLsbD_bit hw, h]
      simp
    rw [bne_iff_ne]
    intro hzero
    rw [hzero] at hone
    simp at hone

theorem word_set (words : Vector (BitVec w) n) {index : Nat} (hw : 0 < w) (h : index < n * w) (x : BitVec w)
    (other : Nat)
    : word (words.setIfInBounds (index / w) x) other = if other / w = index / w then x else word words other := by
  have hlt : index / w < n := (Nat.div_lt_iff_lt_mul hw).mpr h
  unfold word
  by_cases hsame : other / w = index / w
  . rw [if_pos hsame, hsame]
    simp [hlt]
  . rw [if_neg hsame, Vector.getElem?_setIfInBounds_ne (Ne.symm hsame)]

theorem eq_of_div_mod {i j : Nat} (hdiv : i / w = j / w) (hmod : i % w = j % w) : i = j := by
  rw [← Nat.div_add_mod i w, ← Nat.div_add_mod j w, hdiv, hmod]

theorem contains_insert (hw : 0 < w) (words : Vector (BitVec w) n) {index : Nat} (h : index < n * w) (other : Nat)
    : contains (insert words index) other = (decide (other = index) || contains words other) := by
  rw [contains_eq_getLsbD hw, contains_eq_getLsbD hw, insert, word_set words hw h]
  by_cases hsame : other / w = index / w
  . have hword : word words index = word words other := by rw [word, word, hsame]
    have heq : other % w = index % w ↔ other = index :=
      ⟨eq_of_div_mod hsame, fun heq => by rw [heq]⟩
    rw [if_pos hsame, getLsbD_or, getLsbD_bit hw, hword, Bool.or_comm]
    simp only [heq]
  . have hne : other ≠ index := fun heq => hsame (by rw [heq])
    rw [if_neg hsame, decide_eq_false hne, Bool.false_or]

theorem contains_remove (hw : 0 < w) (words : Vector (BitVec w) n) {index : Nat} (h : index < n * w) (other : Nat)
    : contains (remove words index) other = (!decide (other = index) && contains words other) := by
  rw [contains_eq_getLsbD hw, contains_eq_getLsbD hw, remove, word_set words hw h]
  have hlt := Nat.mod_lt other hw
  by_cases hsame : other / w = index / w
  . have hword : word words index = word words other := by rw [word, word, hsame]
    have heq : other % w = index % w ↔ other = index :=
      ⟨eq_of_div_mod hsame, fun heq => by rw [heq]⟩
    rw [if_pos hsame, getLsbD_and, getLsbD_not, getLsbD_bit hw, hword, Bool.and_comm]
    simp only [heq, hlt, decide_true, Bool.true_and]
  . have hne : other ≠ index := fun heq => hsame (by rw [heq])
    rw [if_neg hsame, decide_eq_false hne, Bool.not_false, Bool.true_and]

theorem contains_replicate (hw : 0 < w) (index : Nat)
    : contains (Vector.replicate n 0#w) index = false := by
  rw [contains_eq_getLsbD hw, word]
  by_cases h : index / w < n
  . simp [h]
  . simp [h]

end BitSet
