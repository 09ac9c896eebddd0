import SpiderMonkey.Lib.OptionBind
import SpiderMonkey.Lib.BitFields
import SpiderMonkey.Wasm.Impl.OpIter

/-!
This module contains the ids of function types that are compared when a function is called through a table, and the
theorem that the immediate ones can be told apart.
-/

open List

namespace SpiderMonkey.Wasm

abbrev ImmediateType := BitVec 32

def sTotalBits : Nat := 32
def sTagBits : Nat := 1
def sReturnBit : Nat := 1
def sLengthBits : Nat := 4
def sTypeBits : Nat := 3
def sMaxTypes : Nat := (sTotalBits - sTagBits - sReturnBit - sLengthBits) / sTypeBits

def IsImmediateType : ValType → Bool
  | .I32 => true
  | .I64 => true
  | .F32 => true
  | .F64 => true
  | .V128 => true
  | .Ref .Func => true
  | .Ref .Any => true
  | .Ref (.TypeIndex _) => false

def EncodeImmediateType : ValType → Option ImmediateType
  | .I32 => some 0
  | .I64 => some 1
  | .F32 => some 2
  | .F64 => some 3
  | .V128 => some 4
  | .Ref .Func => some 5
  | .Ref .Any => some 6
  | .Ref (.TypeIndex _) => none

def LengthToBits (length : Nat) : ImmediateType := BitVec.ofNat 32 length

namespace FuncTypeIdDesc

def ImmediateBit : ImmediateType := 0x1

def isGlobal (funcType : FuncType) : Bool :=
  if funcType.results.length + funcType.args.length > sMaxTypes then true
  else if funcType.results.length > 1 then true
  else if funcType.results.any (fun v => !IsImmediateType v) then true
  else if funcType.args.any (fun v => !IsImmediateType v) then true
  else false

abbrev Packed := ImmediateType × Nat

def addBits (bits : ImmediateType) (width : Nat) (packed : Packed) : Packed :=
  (packed.1 ||| (bits <<< packed.2), packed.2 + width)

def addType (packed : Packed) (type : ValType) : Option Packed := do
  let bits ← EncodeImmediateType type
  some (addBits bits sTypeBits packed)

def addResult (results : List ValType) (packed : Packed) : Option Packed :=
  match results with
  | [] => some (packed.1, packed.2 + sReturnBit)
  | result :: _ => addType (addBits 1 sReturnBit packed) result

def immediate (funcType : FuncType) : Option ImmediateType := do
  let packed ← addResult funcType.results (ImmediateBit, sTagBits)
  let packed := addBits (LengthToBits funcType.args.length) sLengthBits packed
  let (immediate, _) ← funcType.args.foldlM addType packed
  some immediate

open BitFields

def typeCode (type : ValType) : Nat := ((EncodeImmediateType type).getD 0).toNat

def typeField (type : ValType) : Field := ⟨sTypeBits, typeCode type⟩

def resultFields : List ValType → List Field
  | [] => [⟨sReturnBit, 0⟩]
  | result :: _ => [⟨sReturnBit, 1⟩, typeField result]

def layout (funcType : FuncType) : List Field :=
  [⟨sTagBits, 1⟩] ++ resultFields funcType.results ++ [⟨sLengthBits, funcType.args.length⟩]
    ++ funcType.args.map typeField

variable {a b : ValType} {fields : List Field} {packed : Packed} {funcType : FuncType}

theorem encode_eq (h : IsImmediateType a = true) : ∃ bits, EncodeImmediateType a = some bits
    ∧ bits.toNat = typeCode a ∧ typeCode a < 2 ^ sTypeBits := by
  cases a with
  | Ref rt =>
    cases rt with
    | TypeIndex _ => cases h
    | Any => exact ⟨_, rfl, rfl, by decide⟩
    | Func => exact ⟨_, rfl, rfl, by decide⟩
  | _ => exact ⟨_, rfl, rfl, by decide⟩

theorem typeCode_inj (ha : IsImmediateType a = true) (hb : IsImmediateType b = true) (h : typeCode a = typeCode b)
    : a = b := by
  revert ha hb h
  rcases a with _ | _ | _ | _ | _ | (_ | _ | _) <;> rcases b with _ | _ | _ | _ | _ | (_ | _ | _) <;>
    first | decide | nofun

structure Immediate (funcType : FuncType) : Prop where
  results_args : funcType.results.length + funcType.args.length ≤ sMaxTypes
  results : funcType.results.length ≤ 1
  result : ∀ v ∈ funcType.results, IsImmediateType v = true
  arg : ∀ v ∈ funcType.args, IsImmediateType v = true

theorem immediate_of_not_isGlobal (h : isGlobal funcType = false) : Immediate funcType := by
  unfold isGlobal at h
  split at h
  next => cases h
  next htypes =>
    split at h
    next => cases h
    next hresults =>
      split at h
      next => cases h
      next hresult =>
        split at h
        next => cases h
        next harg =>
          refine ⟨by omega, by omega, fun v hv => ?_, fun v hv => ?_⟩
          . by_contra hnot
            exact hresult (any_eq_true.mpr ⟨v, hv, by simpa using hnot⟩)
          . by_contra hnot
            exact harg (any_eq_true.mpr ⟨v, hv, by simpa using hnot⟩)

structure Holds (fields : List Field) (packed : Packed) : Prop where
  toNat : packed.1.toNat = pack fields
  shift : packed.2 = width fields
  fit : Fit fields

theorem Holds.addBits {b : ImmediateType} (h : Holds fields packed) (hbits : b.toNat < 2 ^ w)
    (hw : width fields + w ≤ sTotalBits) : Holds (fields ++ [⟨w, b.toNat⟩]) (addBits b w packed) where
  toNat := by
    have hlt : b.toNat <<< packed.2 < 2 ^ 32 := by
      rw [Nat.shiftLeft_eq, h.shift]
      calc
        b.toNat * 2 ^ width fields < 2 ^ w * 2 ^ width fields := by
          exact Nat.mul_lt_mul_of_pos_right hbits (Nat.two_pow_pos _)
        _ = 2 ^ (width fields + w) := by rw [Nat.add_comm, Nat.pow_add]
        _ ≤ 2 ^ 32 := Nat.pow_le_pow_right (by decide) hw
    unfold FuncTypeIdDesc.addBits
    rw [BitVec.toNat_or, BitVec.toNat_shiftLeft, Nat.mod_eq_of_lt hlt, h.toNat, h.shift]
    exact h.fit.or_shiftLeft ⟨w, b.toNat⟩
  shift := by
    rw [width_concat, ← h.shift]
    rfl
  fit := h.fit.concat hbits

theorem Holds.addType (h : Holds fields packed) (ha : IsImmediateType a = true)
    (hw : width fields + sTypeBits ≤ sTotalBits)
    : ∃ packed', addType packed a = some packed' ∧ Holds (fields ++ [typeField a]) packed' := by
  obtain ⟨bits, hbits, heq, hlt⟩ := encode_eq ha
  unfold FuncTypeIdDesc.addType typeField
  rw [hbits, ← heq]
  exact ⟨_, rfl, h.addBits (heq ▸ hlt) hw⟩

theorem Holds.addTypes {args : List ValType} (h : Holds fields packed) (hargs : ∀ v ∈ args, IsImmediateType v = true)
    (hw : width fields + sTypeBits * args.length ≤ sTotalBits)
    : ∃ packed', args.foldlM FuncTypeIdDesc.addType packed = some packed'
        ∧ Holds (fields ++ args.map typeField) packed' := by
  induction args generalizing fields packed with
  | nil => exact ⟨packed, rfl, (append_nil fields).symm ▸ h⟩
  | cons arg args ih =>
    rw [length_cons, Nat.mul_succ] at hw
    obtain ⟨packed', heq, h'⟩ := h.addType (hargs arg mem_cons_self) (by omega)
    obtain ⟨packed'', heq', h''⟩ := ih h' (fun v hv => hargs v (mem_cons_of_mem arg hv)) (by
      rw [width_concat]
      show width fields + sTypeBits + sTypeBits * args.length ≤ sTotalBits
      omega)
    rw [append_assoc] at h''
    refine ⟨packed'', ?_, h''⟩
    rw [foldlM_cons, heq]
    exact heq'

theorem Holds.skipBits (h : Holds fields packed)
    : Holds (fields ++ [⟨w, 0⟩]) (packed.1, packed.2 + w) where
  toNat := by
    rw [pack_concat, Nat.mul_zero, Nat.add_zero]
    exact h.toNat
  shift := by
    rw [width_concat, ← h.shift]
  fit := h.fit.concat (Nat.two_pow_pos w)

theorem Holds.addResult {results : List ValType} (h : Holds [⟨sTagBits, 1⟩] packed)
    (hresults : ∀ v ∈ results, IsImmediateType v = true)
    : ∃ packed', addResult results packed = some packed' ∧ Holds ([⟨sTagBits, 1⟩] ++ resultFields results) packed' := by
  cases results with
  | nil => exact ⟨_, rfl, h.skipBits⟩
  | cons result rest =>
    have hbit : Holds ([⟨sTagBits, 1⟩] ++ [⟨sReturnBit, 1⟩]) (FuncTypeIdDesc.addBits 1 sReturnBit packed) :=
      h.addBits (w := sReturnBit) (b := 1) (by decide) (by decide)
    exact hbit.addType (hresults result mem_cons_self) (by decide)

theorem width_resultFields {results : List ValType} (h : results.length ≤ 1)
    : width (resultFields results) = sReturnBit + sTypeBits * results.length := by
  cases results with
  | nil => rfl
  | cons result rest =>
    cases rest with
    | nil => rfl
    | cons _ _ => exact absurd h (by simp)

theorem width_append (fields fields' : List Field) : width (fields ++ fields') = width fields + width fields' := by
  unfold width
  rw [map_append, sum_append]

theorem width_typeFields (types : List ValType) : width (types.map typeField) = sTypeBits * types.length := by
  induction types with
  | nil => rfl
  | cons type types ih =>
    rw [map_cons, length_cons, Nat.mul_succ, ← ih, Nat.add_comm]
    exact sum_cons

theorem width_layout (h : Immediate funcType)
    : width (layout funcType) = 6 + sTypeBits * (funcType.results.length + funcType.args.length) := by
  unfold layout
  rw [width_append, width_append, width_append, width_resultFields h.results, width_typeFields, Nat.mul_add]
  show 1 + (1 + 3 * _) + 4 + 3 * _ = 6 + (3 * _ + 3 * _)
  omega

theorem width_layout_le (h : Immediate funcType) : width (layout funcType) ≤ sTotalBits := by
  have hle : funcType.results.length + funcType.args.length ≤ 8 := h.results_args
  rw [width_layout h]
  show 6 + 3 * _ ≤ 32
  omega

theorem LengthToBits_toNat {length : Nat} (h : length ≤ sMaxTypes)
    : (LengthToBits length).toNat = length ∧ length < 2 ^ sLengthBits := by
  have hle : length ≤ 8 := h
  unfold LengthToBits
  rw [BitVec.toNat_ofNat, Nat.mod_eq_of_lt (by omega)]
  exact ⟨rfl, show length < 16 by omega⟩

theorem immediate_eq (h : Immediate funcType)
    : ∃ id, immediate funcType = some id ∧ id.toNat = pack (layout funcType) ∧ Fit (layout funcType) := by
  have hwidth := width_layout_le h
  have htypes : funcType.args.length ≤ sMaxTypes := by
    have := h.results_args
    omega
  obtain ⟨hlength, hfits⟩ := LengthToBits_toNat htypes
  have hstart : Holds [⟨sTagBits, 1⟩] (ImmediateBit, sTagBits) := ⟨rfl, rfl, by decide⟩
  obtain ⟨packed, hresult, hpacked⟩ := hstart.addResult h.result
  unfold layout at hwidth ⊢
  rw [width_append, width_typeFields] at hwidth
  have hbits := hpacked.addBits (w := sLengthBits) (b := LengthToBits funcType.args.length) (by rw [hlength]; exact hfits)
    (by rw [width_append _ [_]] at hwidth; exact Nat.le_trans (Nat.le_add_right _ _) hwidth)
  rw [hlength] at hbits
  obtain ⟨⟨id, shift⟩, hargs, hid⟩ := hbits.addTypes h.arg hwidth
  refine ⟨id, ?_, hid.toNat, hid.fit⟩
  unfold immediate
  rw [hresult, some_bind]
  dsimp only
  rw [hargs]
  rfl

theorem pack_types_inj {types types' : List ValType} (h : ∀ v ∈ types, IsImmediateType v = true)
    (h' : ∀ v ∈ types', IsImmediateType v = true) (hlength : types.length = types'.length)
    (heq : pack (types.map typeField) = pack (types'.map typeField)) : types = types' := by
  induction types generalizing types' with
  | nil => exact (eq_nil_of_length_eq_zero hlength.symm).symm
  | cons type types ih =>
    cases types' with
    | nil => cases hlength
    | cons type' types' =>
      have htype := h type mem_cons_self
      have htype' := h' type' mem_cons_self
      obtain ⟨_, _, _, hfits⟩ := encode_eq htype
      obtain ⟨_, _, _, hfits'⟩ := encode_eq htype'
      obtain ⟨hcode, hrest⟩ := pack_cons_inj hfits hfits' heq
      rw [typeCode_inj htype htype' hcode, ih (fun v hv => h v (mem_cons_of_mem type hv))
        (fun v hv => h' v (mem_cons_of_mem type' hv)) (Nat.succ.inj hlength) hrest]

theorem pack_args_inj {args args' : List ValType} (h : ∀ v ∈ args, IsImmediateType v = true)
    (h' : ∀ v ∈ args', IsImmediateType v = true) (hlength : args.length ≤ sMaxTypes) (hlength' : args'.length ≤ sMaxTypes)
    (heq : pack (⟨sLengthBits, args.length⟩ :: args.map typeField)
      = pack (⟨sLengthBits, args'.length⟩ :: args'.map typeField)) : args = args' := by
  obtain ⟨hsame, hrest⟩ := pack_cons_inj (LengthToBits_toNat hlength).2 (LengthToBits_toNat hlength').2 heq
  exact pack_types_inj h h' hsame hrest

theorem layout_inj (h : Immediate funcType) (h' : Immediate funcType')
    (heq : pack (layout funcType) = pack (layout funcType')) : funcType = funcType' := by
  obtain ⟨args, results⟩ := funcType
  obtain ⟨args', results'⟩ := funcType'
  have hle : args.length ≤ sMaxTypes := Nat.le_trans (Nat.le_add_left _ _) h.results_args
  have hle' : args'.length ≤ sMaxTypes := Nat.le_trans (Nat.le_add_left _ _) h'.results_args
  have hone := h.results
  have hone' := h'.results
  obtain ⟨_, hrest⟩ := pack_cons_inj (w := sTagBits) (a := 1) (b := 1) (by decide) (by decide) heq
  cases results with
  | nil =>
    cases results' with
    | nil =>
      obtain ⟨_, hargs⟩ := pack_cons_inj (w := sReturnBit) (a := 0) (b := 0) (by decide) (by decide) hrest
      have hsame : args = args' := pack_args_inj h.arg h'.arg hle hle' hargs
      rw [hsame]
    | cons result' rest' =>
      have hbit := (pack_cons_inj (w := sReturnBit) (a := 0) (b := 1) (by decide) (by decide) hrest).1
      cases hbit
  | cons result rest =>
    cases results' with
    | nil =>
      have hbit := (pack_cons_inj (w := sReturnBit) (a := 1) (b := 0) (by decide) (by decide) hrest).1
      cases hbit
    | cons result' rest' =>
      obtain rfl : rest = [] := eq_nil_of_length_eq_zero (by simpa using hone)
      obtain rfl : rest' = [] := eq_nil_of_length_eq_zero (by simpa using hone')
      obtain ⟨_, htype⟩ := pack_cons_inj (w := sReturnBit) (a := 1) (b := 1) (by decide) (by decide) hrest
      have hresult := h.result result mem_cons_self
      have hresult' := h'.result result' mem_cons_self
      obtain ⟨_, _, _, hfits⟩ := encode_eq hresult
      obtain ⟨_, _, _, hfits'⟩ := encode_eq hresult'
      obtain ⟨hcode, hargs⟩ := pack_cons_inj hfits hfits' htype
      have hsame : args = args' := pack_args_inj h.arg h'.arg hle hle' hargs
      rw [typeCode_inj hresult hresult' hcode, hsame]

theorem immediate_injective {a b : FuncType} (ha : isGlobal a = false) (hb : isGlobal b = false)
    : (∃ id, immediate a = some id ∧ id.toNat = pack (layout a) ∧ Fit (layout a) ∧ width (layout a) ≤ sTotalBits
        ∧ ∀ globalId : Nat, 2 ∣ globalId → id.toNat ≠ globalId)
      ∧ (immediate a = immediate b → a.args = b.args ∧ a.results = b.results) := by
  have ha' := immediate_of_not_isGlobal ha
  have hb' := immediate_of_not_isGlobal hb
  obtain ⟨id, hid, hpack, hfit⟩ := immediate_eq ha'
  obtain ⟨id', hid', hpack', _⟩ := immediate_eq hb'
  constructor
  . refine ⟨id, hid, hpack, hfit, width_layout_le ha', fun globalId hglobal heq => ?_⟩
    have hodd : pack (layout a) % 2 = 1 := Nat.add_mul_mod_self_left 1 2 _
    omega
  intro heq
  rw [hid, hid'] at heq
  cases heq
  obtain rfl := layout_inj ha' hb' (hpack.symm.trans hpack')
  exact ⟨rfl, rfl⟩

theorem immediate_injective_of_result
    : ¬immediate ⟨[.I32], [.F64]⟩ = immediate ⟨[.F64, .I32], []⟩ := by
  intro heq
  have hargs := ((immediate_injective (a := ⟨[.I32], [.F64]⟩) (b := ⟨[.F64, .I32], []⟩) (by decide) (by decide)).2 heq).1
  exact absurd hargs (by decide)

end FuncTypeIdDesc
end SpiderMonkey.Wasm
