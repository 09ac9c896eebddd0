import Mathlib.Data.Nat.Notation

/-!
This module contains the merge sort of ds/Sort.h. It sorts in place, in an array and a scratch array that both have
`nelems` entries, and counts with indexes that stay below twice this number.
-/

namespace SpiderMonkey.InPlaceSort

inductive Stop where
  | failed
  | stuck
deriving DecidableEq

abbrev Sorting (σ : Type) := StateT σ (Except Stop)

-- A comparator may answer differently each time.
abbrev Comparator (σ α : Type) := α → α → σ → Option (Bool × σ)

section

variable {σ α : Type} (c : Comparator σ α)

def lessOrEqual (a b : α) : Sorting σ Bool := fun s =>
  match c a b s with
  | some result => .ok result
  | none => .error .failed

def read (array : List α) (i : Nat) : Sorting σ α :=
  match array[i]? with
  | some x => pure x
  | none => throw .stuck

def write (array : List α) (i : Nat) (x : α) : Sorting σ (List α) :=
  if i < array.length then pure (array.set i x) else throw .stuck

def CopyNonEmptyArray (src dst : List α) : (srcIndex dstIndex nelems : Nat) → Sorting σ (List α)
  | _, _, 0 => throw .stuck
  | srcIndex, dstIndex, nelems + 1 => do
    let dst ← write dst dstIndex (← read src srcIndex)
    if nelems = 0 then pure dst else CopyNonEmptyArray src dst (srcIndex + 1) (dstIndex + 1) nelems

def mergeLoop (src : List α) : (fuel : Nat) → (dst : List α) → (dstIndex a b run1 run2 : Nat) → Sorting σ (List α)
  | 0, _, _, _, _, _, _ => throw .stuck
  | fuel + 1, dst, dstIndex, a, b, run1, run2 => do
    if ← lessOrEqual c (← read src a) (← read src b) then
      let dst ← write dst dstIndex (← read src a)
      if run1 - 1 = 0 then CopyNonEmptyArray src dst b (dstIndex + 1) run2
      else mergeLoop src fuel dst (dstIndex + 1) (a + 1) b (run1 - 1) run2
    else
      let dst ← write dst dstIndex (← read src b)
      if run2 - 1 = 0 then CopyNonEmptyArray src dst a (dstIndex + 1) run1
      else mergeLoop src fuel dst (dstIndex + 1) a (b + 1) run1 (run2 - 1)

def MergeArrayRuns (dst src : List α) (lo run1 run2 : Nat) : Sorting σ (List α) := do
  if run1 = 0 ∨ run2 = 0 then throw .stuck
  let b := lo + run1
  if ← lessOrEqual c (← read src (b - 1)) (← read src b) then CopyNonEmptyArray src dst lo lo (run1 + run2)
  else mergeLoop c src (run1 + run2) dst lo lo b run1 run2

def INS_SORT_LIMIT : Nat := 3

def insertLoop (lo : Nat) : (j : Nat) → (array : List α) → Sorting σ (List α)
  | 0, _ => throw .stuck
  | j + 1, array => do
    if ← lessOrEqual c (← read array j) (← read array (j + 1)) then pure array
    else
      let tmp ← read array j
      let array ← write array j (← read array (j + 1))
      let array ← write array (j + 1) tmp
      if j = lo then pure array else insertLoop lo j array

def insertionLoop (lo hi : Nat) : (fuel i : Nat) → (array : List α) → Sorting σ (List α)
  | 0, _, _ => throw .stuck
  | fuel + 1, i, array => do
    if i = hi then pure array
    else
      let array ← insertLoop c lo i array
      insertionLoop lo hi fuel (i + 1) array

def chunksLoop (nelems : Nat) : (fuel lo : Nat) → (array : List α) → Sorting σ (List α)
  | 0, _, _ => throw .stuck
  | fuel + 1, lo, array => do
    if lo < nelems then
      let hi := if lo + INS_SORT_LIMIT ≥ nelems then nelems else lo + INS_SORT_LIMIT
      let array ← insertionLoop c lo hi (nelems + 1) (lo + 1) array
      chunksLoop nelems fuel (lo + INS_SORT_LIMIT) array
    else pure array

def passLoop (nelems run : Nat) (vec1 : List α) : (fuel lo : Nat) → (vec2 : List α) → Sorting σ (List α)
  | 0, _, _ => throw .stuck
  | fuel + 1, lo, vec2 => do
    if lo < nelems then
      let hi := lo + run
      if hi ≥ nelems then CopyNonEmptyArray vec1 vec2 lo lo (nelems - lo)
      else
        let run2 := if run ≤ nelems - hi then run else nelems - hi
        let vec2 ← MergeArrayRuns c vec2 vec1 lo run run2
        passLoop nelems run vec1 fuel (lo + 2 * run) vec2
    else pure vec2

def runLoop (nelems : Nat) : (fuel run : Nat) → (vec1 vec2 : List α) → (swapped : Bool)
    → Sorting σ (List α × List α × Bool)
  | 0, _, _, _, _ => throw .stuck
  | fuel + 1, run, vec1, vec2, swapped => do
    if run < nelems then
      let vec2 ← passLoop c nelems run vec1 (nelems + 1) 0 vec2
      runLoop nelems fuel (run * 2) vec2 vec1 !swapped
    else pure (vec1, vec2, swapped)

def MergeSort (array : List α) (nelems : Nat) (scratch : List α) : Sorting σ (List α × List α) := do
  if nelems ≤ 1 then return (array, scratch)
  let array ← chunksLoop c nelems (nelems + 1) 0 array
  let (vec1, vec2, swapped) ← runLoop c nelems (nelems + 1) INS_SORT_LIMIT array scratch false
  if swapped then
    let array ← CopyNonEmptyArray vec1 vec2 0 0 nelems
    return (array, vec1)
  return (vec1, vec2)

end

end SpiderMonkey.InPlaceSort
