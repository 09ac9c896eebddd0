import SpiderMonkey.Lib.Binary64
import SpiderMonkey.Lib.Overwrite
import SpiderMonkey.Mfbt.Impl.HashTable
import SpiderMonkey.Vm.Impl.JSONParser

/-!
This module contains the native sort of arrays. Memory suffices, and no interrupt is handled.
-/

namespace SpiderMonkey.ArraySort

section

variable {α : Type} (c : α → α → Bool)

def moveLeft : List α → α → List α
  | [], x => [x]
  | y :: before, x => if c y x then x :: y :: before else y :: moveLeft before x

def insertionSort (chunk : List α) : List α := (chunk.foldl (moveLeft c) []).reverse

def INS_SORT_LIMIT : Nat := 3

def sortChunks (array : List α) : List α :=
  if array = [] then [] else insertionSort c (array.take INS_SORT_LIMIT) ++ sortChunks (array.drop INS_SORT_LIMIT)
termination_by array.length
decreasing_by
  have hpos : 0 < array.length := List.length_pos_iff.mpr ‹_›
  rw [List.length_drop, INS_SORT_LIMIT]
  omega

def MergeArrayRuns (run1 run2 : List α) : List α :=
  match run1.getLast?, run2.head? with
  | some x, some y => if c x y then run1 ++ run2 else run1.merge run2 c
  | _, _ => run1 ++ run2

def mergePass (run : Nat) (vec : List α) : List α :=
  if run = 0 ∨ vec.length ≤ run then vec
  else MergeArrayRuns c (vec.take run) ((vec.drop run).take run) ++ mergePass run (vec.drop (2 * run))
termination_by vec.length
decreasing_by
  rw [List.length_drop]
  omega

def mergePasses (nelems run : Nat) (vec : List α) : List α :=
  if run = 0 ∨ nelems ≤ run then vec else mergePasses nelems (run * 2) (mergePass c run vec)
termination_by nelems - run

def MergeSort (array : List α) : List α :=
  if array.length ≤ 1 then array else mergePasses c array.length INS_SORT_LIMIT (sortChunks c array)

end

structure SortElement (κ : Type) where
  key : κ
  elementIndex : Nat

section

variable {κ α : Type}

def followCycle (i : Nat) : (fuel j : Nat) → List (SortElement κ) → List α → Option (List (SortElement κ) × List α)
  | 0, _, _, _ => none
  | fuel + 1, j, keys, vec => do
    let element ← keys[j]?
    let k := element.elementIndex
    let keys := keys.set j { element with elementIndex := j }
    let vec := vec.set j (← vec[k]?)
    if k = i then return (keys, vec) else followCycle i fuel k keys vec

-- A cycle is not longer than the keys are.
def reorder : (count i : Nat) → List (SortElement κ) → List α → Option (List α)
  | 0, _, _, vec => some vec
  | count + 1, i, keys, vec => do
    let j := (← keys[i]?).elementIndex
    if i = j then reorder count (i + 1) keys vec
    else
      guard (j > i)
      let tv ← vec[j]?
      let (keys, vec) ← followCycle i keys.length j keys vec
      reorder count (i + 1) keys (vec.set i tv)

def MergeSortByKey (keys : List (SortElement κ)) (comparator : κ → κ → Bool) (vec : List α) : Option (List α) := do
  guard (keys.length ≤ vec.length)
  reorder keys.length 0 (MergeSort (fun a b => comparator a.key b.key) keys) vec

end

-- Numbers, in units of the least positive one. The two zeros are one number here, as no comparison tells them apart.
inductive Double where
  | finite (units : Int)
  | infinity (negative : Bool)
  | nan
deriving DecidableEq

namespace Double

def unitsPerOne : Nat := 2 ^ 1074

def ofInt (n : Int) : Double := .finite (n * unitsPerOne)

def ofBits (bits : BitVec 64) : Double :=
  let exponent := Binary64.biasedExponent bits
  let fraction := Binary64.fraction bits
  if exponent = 2047 then if fraction = 0 then .infinity (Binary64.negative bits) else .nan
  else
    let units := if exponent = 0 then fraction else (2 ^ 52 + fraction) * 2 ^ (exponent - 1)
    .finite (if Binary64.negative bits then -units else units)

def le : Double → Double → Bool
  | .nan, _ => false
  | _, .nan => false
  | .infinity true, _ => true
  | _, .infinity false => true
  | .finite a, .finite b => a ≤ b
  | _, _ => false

end Double

inductive Value (Other : Type) where
  | undefined
  | int32 (i : Int32)
  | double (bits : BitVec 64)
  | string (s : List CharT)
  | other (x : Other)
deriving DecidableEq

structure Conversions (Other : Type) where
  NumberToString : BitVec 64 → List CharT
  StringToNumber : List CharT → BitVec 64
  OtherToString : Other → Option (List CharT)
  OtherToNumber : Other → Option (BitVec 64)

inductive Failure where
  | exception
  | assertion
deriving DecidableEq

def Int32ToString (i : Int32) : List CharT :=
  (if i.toInt < 0 then [unit '-'] else []) ++ (Nat.toDigits 10 i.toInt.natAbs).map unit

def asserted {α : Type} (result : Option α) : Except Failure α :=
  match result with
  | some x => .ok x
  | none => .error .assertion

def thrown {α : Type} (result : Option α) : Except Failure α :=
  match result with
  | some x => .ok x
  | none => .error .exception

section

variable {Other : Type} (conversions : Conversions Other)

def ToString : Value Other → Option (List CharT)
  | .undefined => some ("undefined".toList.map unit)
  | .int32 i => some (Int32ToString i)
  | .double bits => some (conversions.NumberToString bits)
  | .string s => some s
  | .other x => conversions.OtherToString x

def ToNumber : Value Other → Option Double
  | .undefined => some .nan
  | .int32 i => some (.ofInt i.toInt)
  | .double bits => some (.ofBits bits)
  | .string s => some (.ofBits (conversions.StringToNumber s))
  | .other x => (conversions.OtherToNumber x).map .ofBits

def CompareChars : List CharT → List CharT → Int
  | c1 :: s1, c2 :: s2 => if (c1.toNat : Int) - c2.toNat ≠ 0 then (c1.toNat : Int) - c2.toNat else CompareChars s1 s2
  | s1, s2 => (s1.length : Int) - s2.length

-- The last one takes the place of the power that no two numbers of digits differ by, unless one of the numbers is zero.
def powersOf10 : List Nat :=
  [1, 10, 100, 1000, 10000, 100000, 1000000, 10000000, 100000000, 1000000000, 1000000000000]

def NumDigitsBase10 (n : Nat) : Nat :=
  let log2 := CeilingLog2 n
  let t := (log2 * 1233) >>> 12
  t + 1 - if n < powersOf10.getD t 0 then 1 else 0

def CompareLexicographicInt32 (a b : Int32) : Option Bool :=
  let aint := a.toInt
  let bint := b.toInt
  if aint = bint then some true
  else if aint < 0 ∧ bint ≥ 0 then some true
  else if aint ≥ 0 ∧ bint < 0 then some false
  else
    let auint := aint.natAbs
    let buint := bint.natAbs
    let digitsa := NumDigitsBase10 auint
    let digitsb := NumDigitsBase10 buint
    if digitsa = digitsb then some (auint ≤ buint)
    else if digitsa > digitsb then do
      let power ← powersOf10[digitsa - digitsb]?
      return auint < buint * power % 2 ^ 64
    else do
      let power ← powersOf10[digitsb - digitsa]?
      return auint * power % 2 ^ 64 ≤ buint

def isString : Value Other → Bool
  | .string _ => true
  | _ => false

def isInt32 : Value Other → Bool
  | .int32 _ => true
  | _ => false

def toChars : Value Other → List CharT
  | .string s => s
  | _ => []

def toInt32 : Value Other → Int32
  | .int32 i => i
  | _ => 0

def SortComparatorStrings (a b : Value Other) : Bool := CompareChars (toChars a) (toChars b) ≤ 0

def SortComparatorLexicographicInt32 (a b : Value Other) : Bool :=
  (CompareLexicographicInt32 (toInt32 a) (toInt32 b)).getD false

structure CharsRange where
  charsBegin : Nat
  charsEnd : Nat

def SortComparatorStringifiedElements (sb : List CharT) (a b : CharsRange) : Bool :=
  CompareChars (Overwrite.slice sb a.charsBegin (a.charsEnd - a.charsBegin))
    (Overwrite.slice sb b.charsBegin (b.charsEnd - b.charsBegin)) ≤ 0

inductive ComparatorMatchResult where
  | Match_Failure
  | Match_None
  | Match_LeftMinusRight
  | Match_RightMinusLeft
deriving DecidableEq

def SortComparatorNumerics : ComparatorMatchResult → Option (Double → Double → Bool)
  | .Match_LeftMinusRight => some fun a b => a.le b
  | .Match_RightMinusLeft => some fun a b => b.le a
  | _ => none

def SortComparatorInt32s : ComparatorMatchResult → Option (Value Other → Value Other → Bool)
  | .Match_LeftMinusRight => some fun a b => (toInt32 a).toInt ≤ (toInt32 b).toInt
  | .Match_RightMinusLeft => some fun a b => (toInt32 b).toInt ≤ (toInt32 a).toInt
  | _ => none

def stringify : List (Value Other) → (i : Nat) → (sb : List CharT)
    → Except Failure (List (SortElement CharsRange) × List CharT)
  | [], _, sb => .ok ([], sb)
  | v :: vec, i, sb => do
    let s ← thrown (ToString conversions v)
    let (strElements, result) ← stringify vec (i + 1) (sb ++ s)
    let key := { charsBegin := sb.length, charsEnd := (sb ++ s).length }
    return ({ key := key, elementIndex := i } :: strElements, result)

def SortLexicographically (vec : List (Value Other)) : Except Failure (List (Value Other)) := do
  let (strElements, sb) ← stringify conversions vec 0 []
  asserted (MergeSortByKey strElements (SortComparatorStringifiedElements sb) vec)

def numericElements : List (Value Other) → (i : Nat) → Except Failure (List (SortElement Double))
  | [], _ => .ok []
  | v :: vec, i => do
    let dv ← thrown (ToNumber conversions v)
    let numElements ← numericElements vec (i + 1)
    return { key := dv, elementIndex := i } :: numElements

def SortNumerically (vec : List (Value Other)) (comp : ComparatorMatchResult)
    : Except Failure (List (Value Other)) := do
  let numElements ← numericElements conversions vec 0
  let comparator ← asserted (SortComparatorNumerics comp)
  asserted (MergeSortByKey numElements comparator vec)

def UINT32_MAX : Nat := 2 ^ 32 - 1

-- An array without any indexed properties but the dense elements, of which holes are missing. There are none on its
-- prototypes either. A packed array has no holes.
structure DenseArray (Other : Type) where
  elements : List (Option (Value Other))
  packed : Bool
  length_le : elements.length ≤ UINT32_MAX
  noHoles : packed → none ∉ elements

structure Collected (Other : Type) where
  vec : List (Value Other)
  undefs : Nat
  allStrings : Bool
  allInts : Bool

def collect (collected : Collected Other) (v : Value Other) : Collected Other :=
  match v with
  | .undefined => { collected with undefs := collected.undefs + 1 }
  | v => { collected with
      vec := collected.vec ++ [v]
      allStrings := collected.allStrings && isString v
      allInts := collected.allInts && isInt32 v }

def collectPacked (collected : Collected Other) (element : Option (Value Other))
    : Except Failure (Collected Other) := do
  let v ← asserted element
  return collect collected v

def collectDense (collected : Collected Other) (element : Option (Value Other)) : Collected Other :=
  match element with
  | none => collected
  | some v => collect collected v

def collectElements (array : DenseArray Other) : Except Failure (Collected Other) :=
  let collected := { vec := [], undefs := 0, allStrings := true, allInts := true }
  if array.packed then array.elements.foldlM collectPacked collected
  else .ok (array.elements.foldl collectDense collected)

def sortValues (comp : ComparatorMatchResult) (collected : Collected Other) : Except Failure (List (Value Other)) := do
  if comp = .Match_None then
    if collected.allStrings then return MergeSort SortComparatorStrings collected.vec
    else if collected.allInts then return MergeSort SortComparatorLexicographicInt32 collected.vec
    else SortLexicographically conversions collected.vec
  else if collected.allInts then
    let comparator ← asserted (SortComparatorInt32s comp)
    return MergeSort comparator collected.vec
  else SortNumerically conversions collected.vec comp

def intrinsic_ArrayNativeSort (fval : Option ComparatorMatchResult) (array : DenseArray Other)
    : Except Failure (Bool × List (Option (Value Other))) := do
  if fval = some .Match_Failure then throw .exception
  else if fval = some .Match_None then return (false, array.elements)
  else
    let comp := fval.getD .Match_None
    let len := array.elements.length
    if len < 2 then return (true, array.elements)
    else if len > UINT32_MAX then throw .exception
    else
      let collected ← collectElements array
      let n := collected.vec.length
      if n = 0 ∧ collected.undefs = 0 then return (true, array.elements)
      else
        let vec ← sortValues conversions comp collected
        let elements := Overwrite.overwrite array.elements 0 (vec.map some)
        let elements := Overwrite.overwrite elements n (List.replicate collected.undefs (some .undefined))
        let n := n + collected.undefs
        return (true, Overwrite.overwrite elements n (List.replicate (len - n) none))

end

end SpiderMonkey.ArraySort
