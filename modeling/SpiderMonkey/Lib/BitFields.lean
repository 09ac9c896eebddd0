import Mathlib.Data.Nat.Bitwise

/-!
This module contains fields of bits that are packed one after the other, the first one lowest.
-/

namespace BitFields

structure Field where
  width : Nat
  value : Nat
deriving DecidableEq

def width (fields : List Field) : Nat := (fields.map Field.width).sum

def pack : List Field → Nat
  | [] => 0
  | field :: fields => field.value + 2 ^ field.width * pack fields

def Fit (fields : List Field) : Prop := ∀ field ∈ fields, field.value < 2 ^ field.width

instance (fields : List Field) : Decidable (Fit fields) := inferInstanceAs (Decidable (∀ field ∈ fields, _))

variable {field field' : Field} {fields fields' : List Field}

theorem width_concat (fields : List Field) (field : Field) : width (fields ++ [field]) = width fields + field.width := by
  unfold width
  rw [List.map_append, List.sum_append]
  rfl

theorem pack_concat (fields : List Field) (field : Field)
    : pack (fields ++ [field]) = pack fields + 2 ^ width fields * field.value := by
  induction fields with
  | nil =>
    unfold pack width
    simp [pack]
  | cons first fields ih =>
    have hwidth : width (first :: fields) = first.width + width fields := List.sum_cons
    rw [List.cons_append, pack, pack, ih, hwidth, Nat.pow_add, Nat.mul_add, ← Nat.mul_assoc, Nat.add_assoc]

theorem Fit.concat (h : Fit fields) (hfield : field.value < 2 ^ field.width) : Fit (fields ++ [field]) := by
  intro f hf
  rcases List.mem_append.mp hf with hf | hf
  . exact h f hf
  . rw [List.mem_singleton.mp hf]
    exact hfield

theorem Fit.pack_lt (h : Fit fields) : pack fields < 2 ^ width fields := by
  induction fields with
  | nil => exact Nat.one_pos
  | cons field fields ih =>
    have hvalue := h field List.mem_cons_self
    have hrest := ih fun f hf => h f (List.mem_cons_of_mem field hf)
    have hwidth : width (field :: fields) = field.width + width fields := List.sum_cons
    rw [pack, hwidth, Nat.pow_add]
    calc
      field.value + 2 ^ field.width * pack fields < 2 ^ field.width + 2 ^ field.width * pack fields := by omega
      _ = 2 ^ field.width * (pack fields + 1) := by rw [Nat.mul_succ, Nat.add_comm]
      _ ≤ 2 ^ field.width * 2 ^ width fields := Nat.mul_le_mul_left _ hrest

theorem Fit.or_shiftLeft (h : Fit fields) (field : Field)
    : pack fields ||| (field.value <<< width fields) = pack (fields ++ [field]) := by
  rw [pack_concat, Nat.or_comm, ← Nat.shiftLeft_add_eq_or_of_lt h.pack_lt, Nat.shiftLeft_eq, Nat.add_comm, Nat.mul_comm]

theorem pack_cons_inj (ha : a < 2 ^ w) (hb : b < 2 ^ w) (h : pack (⟨w, a⟩ :: fields) = pack (⟨w, b⟩ :: fields'))
    : a = b ∧ pack fields = pack fields' := by
  unfold pack at h
  have hpos : 0 < 2 ^ w := Nat.two_pow_pos w
  constructor
  . have hmod := congrArg (· % 2 ^ w) h
    rwa [Nat.add_mul_mod_self_left, Nat.add_mul_mod_self_left, Nat.mod_eq_of_lt ha, Nat.mod_eq_of_lt hb] at hmod
  have hdiv := congrArg (· / 2 ^ w) h
  rwa [Nat.add_mul_div_left _ _ hpos, Nat.add_mul_div_left _ _ hpos, Nat.div_eq_of_lt ha, Nat.div_eq_of_lt hb,
    Nat.zero_add, Nat.zero_add] at hdiv

end BitFields
