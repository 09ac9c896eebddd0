import Mathlib.Data.Int.NatAbs
import Mathlib.Logic.Function.Basic

/-!
This module contains the hash table that iterates in insertion order, with the ranges that iterate
over it while it changes.
-/

namespace SpiderMonkey

namespace OrderedHashTable

structure Ops (T K : Type) where
  getKey : T → K
  isEmpty : K → Bool
  makeEmpty : T → T
  match_ : K → K → Bool
  prepareHash : K → Nat
  isEmpty_makeEmpty : ∀ e, isEmpty (getKey (makeEmpty e)) = true
  match_empty : ∀ k l, isEmpty k = true → isEmpty l = false → match_ k l = false
  match_symm : ∀ k l, match_ k l = true → match_ l k = true
  match_trans : ∀ k l m, match_ k l = true → match_ l m = true → match_ k m = true
  prepareHash_eq : ∀ k l, match_ k l = true → prepareHash k = prepareHash l

structure Range where
  i : Nat
  count : Nat
deriving DecidableEq, Repr

-- Whether the two calls of `pod_malloc` that an operation can make succeed.
structure AllocPolicy where
  hashTable : Bool
  data : Bool
deriving DecidableEq, Repr

end OrderedHashTable

open OrderedHashTable

-- Following the `chain` pointers from a bucket visits the indices in `hashTable` one after the
-- other. Only the constructed elements of `data` are kept, so its length is `dataLength`. A range is
-- known by the number of its buffer. The other counters have no more than 32 bits as long as the
-- elements fit into `dataCapacity`.
structure OrderedHashTable (T : Type) where
  hashTable : Nat → List Nat
  data : List T
  dataCapacity : Nat
  liveCount : Nat
  hashShift : Nat
  ranges : List (Nat × Range)
  nurseryRanges : List (Nat × Range)

namespace OrderedHashTable

variable {T K : Type} (ops : Ops T K)

def Ops.live (e : T) : Bool := !ops.isEmpty (ops.getKey e)

def kHashNumberBits : Nat := 32

def initialBucketsLog2 : Nat := 1

def initialBuckets : Nat := 1 <<< initialBucketsLog2

def hashBuckets (t : OrderedHashTable T) : Nat := 1 <<< (kHashNumberBits - t.hashShift)

-- The product is converted to 32 bits.
def capacity (buckets : Nat) : Nat := buckets * 8 / 3 % 2 ^ 32

def init (t : OrderedHashTable T) (alloc : AllocPolicy) : Option (OrderedHashTable T) :=
  if !alloc.hashTable then
    none
  else if !alloc.data then
    none
  else
    some { t with
      hashTable := fun _ => []
      data := []
      dataCapacity := capacity initialBuckets
      liveCount := 0
      hashShift := kHashNumberBits - initialBucketsLog2 }

def new (alloc : AllocPolicy) : Option (OrderedHashTable T) :=
  init ⟨fun _ => [], [], 0, 0, 0, [], []⟩ alloc

namespace Range

def seekFrom (rest : List T) (i : Nat) : Nat :=
  match rest with
  | [] => i
  | e :: rest => if ops.isEmpty (ops.getKey e) then seekFrom rest (i + 1) else i

def seek (data : List T) (i : Nat) : Nat := seekFrom ops (data.drop i) i

theorem le_seekFrom (rest : List T) (i : Nat) : i ≤ seekFrom ops rest i := by
  fun_induction seekFrom ops rest i with
  | case1 => omega
  | case2 => omega
  | case3 => omega

def onRemove (data : List T) (j : Nat) (r : Range) : Range :=
  let r := if j < r.i then { r with count := r.count - 1 } else r
  if j = r.i then { r with i := seek ops data r.i } else r

def onCompact (r : Range) : Range := { r with i := r.count }

def onClear (_ : Range) : Range := ⟨0, 0⟩

def front (t : OrderedHashTable T) (r : Range) : Option T := t.data[r.i]?

def popFront (t : OrderedHashTable T) (r : Range) : Range :=
  ⟨seek ops t.data (r.i + 1), r.count + 1⟩

end Range

def forEachRange (f : Range → Range) (t : OrderedHashTable T) : OrderedHashTable T :=
  { t with
      ranges := t.ranges.map (fun r => (r.1, f r.2))
      nurseryRanges := t.nurseryRanges.map (fun r => (r.1, f r.2)) }

def lookup (t : OrderedHashTable T) (l : K) (h : Nat) : Option Nat :=
  (t.hashTable (h >>> t.hashShift)).find? (fun e =>
    match t.data[e]? with
    | some d => ops.match_ (ops.getKey d) l
    | none => false)

def compacted (t : OrderedHashTable T) : OrderedHashTable T := forEachRange Range.onCompact t

def bucket (hashShift : Nat) (e : T) : Nat := ops.prepareHash (ops.getKey e) >>> hashShift

def rehashInPlaceStep (hashShift rp : Nat) (s : List T × Nat × (Nat → List Nat))
    : List T × Nat × (Nat → List Nat) :=
  match s with
  | (data, wp, hashTable) =>
    match data[rp]? with
    | some e =>
      if ops.isEmpty (ops.getKey e) then
        (data, wp, hashTable)
      else
        let h := bucket ops hashShift e
        (if rp ≠ wp then data.set wp e else data, wp + 1, Function.update hashTable h (wp :: hashTable h))
    | none => (data, wp, hashTable)

def rehashInPlace (t : OrderedHashTable T) : OrderedHashTable T :=
  let (data, _, hashTable) :=
    Nat.fold t.data.length (fun rp _ => rehashInPlaceStep ops t.hashShift rp)
      (t.data, 0, fun _ => [])
  compacted { t with
    hashTable := hashTable
    data := data.take t.liveCount }

def rehashStep (hashShift : Nat) (s : List T × (Nat → List Nat)) (e : T)
    : List T × (Nat → List Nat) :=
  match s with
  | (data, hashTable) =>
    if ops.isEmpty (ops.getKey e) then
      (data, hashTable)
    else
      let h := bucket ops hashShift e
      (data ++ [e], Function.update hashTable h (data.length :: hashTable h))

def rehash (alloc : AllocPolicy) (newHashShift : Nat) (t : OrderedHashTable T)
    : Option (OrderedHashTable T) :=
  if newHashShift = t.hashShift then
    some (rehashInPlace ops t)
  else if !alloc.hashTable then
    none
  else if !alloc.data then
    none
  else
    let (data, hashTable) := t.data.foldl (rehashStep ops newHashShift) ([], fun _ => [])
    some (compacted { t with
      hashTable := hashTable
      data := data.take t.liveCount
      dataCapacity := capacity (1 <<< (kHashNumberBits - newHashShift))
      hashShift := newHashShift })

def reserve (alloc : AllocPolicy) (t : OrderedHashTable T) : Option (OrderedHashTable T) :=
  if t.data.length = t.dataCapacity then
    rehash ops alloc (if 3 * t.dataCapacity ≤ 4 * t.liveCount then t.hashShift - 1 else t.hashShift) t
  else
    some t

def append (t : OrderedHashTable T) (element : T) : OrderedHashTable T :=
  let h := bucket ops t.hashShift element
  { t with
      hashTable := Function.update t.hashTable h (t.data.length :: t.hashTable h)
      data := t.data ++ [element]
      liveCount := t.liveCount + 1 }

def put (alloc : AllocPolicy) (t : OrderedHashTable T) (element : T)
    : OrderedHashTable T × Bool :=
  match lookup ops t (ops.getKey element) (ops.prepareHash (ops.getKey element)) with
  | some e => ({ t with data := t.data.set e element }, true)
  | none =>
    match reserve ops alloc t with
    | some t => (append ops t element, true)
    | none => (t, false)

def removeEntry (t : OrderedHashTable T) (e : Nat) : OrderedHashTable T :=
  let data := t.data.modify e ops.makeEmpty
  forEachRange (Range.onRemove ops data e)
    { t with data := data, liveCount := t.liveCount - 1 }

def shrink (alloc : AllocPolicy) (t : OrderedHashTable T) : OrderedHashTable T × Bool :=
  if initialBuckets < hashBuckets t ∧ 4 * t.liveCount < t.data.length then
    match rehash ops alloc (t.hashShift + 1) t with
    | some t => (t, true)
    | none => (t, false)
  else
    (t, true)

def remove (alloc : AllocPolicy) (t : OrderedHashTable T) (l : K)
    : OrderedHashTable T × Bool × Bool :=
  match lookup ops t l (ops.prepareHash l) with
  | none => (t, false, true)
  | some e =>
    let (t, ok) := shrink ops alloc (removeEntry ops t e)
    (t, true, ok)

def clear (alloc : AllocPolicy) (t : OrderedHashTable T) : OrderedHashTable T × Bool :=
  if t.data.length ≠ 0 then
    match init t alloc with
    | some t => (forEachRange Range.onClear t, true)
    | none => (t, false)
  else
    (t, true)

def createRange (t : OrderedHashTable T) (buffer : Nat) (inNursery : Bool)
    : OrderedHashTable T :=
  let r := ⟨Range.seek ops t.data 0, 0⟩
  if inNursery then
    { t with nurseryRanges := (buffer, r) :: t.nurseryRanges }
  else
    { t with ranges := (buffer, r) :: t.ranges }

def copyRange (t : OrderedHashTable T) (buffer : Nat) (other : Range) : OrderedHashTable T :=
  { t with ranges := (buffer, other) :: t.ranges }

def destroyRange (t : OrderedHashTable T) (buffer : Nat) : OrderedHashTable T :=
  { t with
      ranges := t.ranges.filter (fun r => r.1 ≠ buffer)
      nurseryRanges := t.nurseryRanges.filter (fun r => r.1 ≠ buffer) }

def destroyNurseryRanges (t : OrderedHashTable T) : OrderedHashTable T :=
  { t with nurseryRanges := [] }

def findRange (t : OrderedHashTable T) (buffer : Nat) : Option Range :=
  ((t.ranges ++ t.nurseryRanges).find? (fun r => r.1 == buffer)).map Prod.snd

def popFront (t : OrderedHashTable T) (buffer : Nat) : OrderedHashTable T :=
  let pop := fun r : Nat × Range => if r.1 = buffer then (r.1, r.2.popFront ops t) else r
  { t with
      ranges := t.ranges.map pop
      nurseryRanges := t.nurseryRanges.map pop }

inductive Op (T K : Type) where
  | put (element : T) (alloc : AllocPolicy)
  | remove (l : K) (alloc : AllocPolicy)
  | clear (alloc : AllocPolicy)
  | createRange (buffer : Nat) (inNursery : Bool)
  | copyRange (buffer other : Nat)
  | destroyRange (buffer : Nat)
  | destroyNurseryRanges
  | popFront (buffer : Nat)

-- The table with a record of what was called and returned, and of the elements that every range has
-- visited, each as `front` returned it before `popFront`.
structure System (T K : Type) where
  table : OrderedHashTable T
  history : List (Op T K × Bool)
  visited : Nat → List T

def System.new (alloc : AllocPolicy) : Option (System T K) :=
  (OrderedHashTable.new alloc).map (fun t => ⟨t, [], fun _ => []⟩)

-- There is no step when the caller breaks what an operation asserts: keys are not empty, a buffer is
-- used for one range at a time and `popFront` is not called on an empty range.
def System.step (s : System T K) (op : Op T K) : Option (System T K) :=
  match op with
  | .put element alloc =>
    if ops.isEmpty (ops.getKey element) then
      none
    else
      let (table, ok) := put ops alloc s.table element
      some ⟨table, s.history ++ [(op, ok)], s.visited⟩
  | .remove l alloc =>
    if ops.isEmpty l then
      none
    else
      let (table, _, ok) := remove ops alloc s.table l
      some ⟨table, s.history ++ [(op, ok)], s.visited⟩
  | .clear alloc =>
    let (table, ok) := clear alloc s.table
    some ⟨table, s.history ++ [(op, ok)], s.visited⟩
  | .createRange buffer inNursery =>
    if (findRange s.table buffer).isSome then
      none
    else
      some ⟨createRange ops s.table buffer inNursery, s.history ++ [(op, true)], Function.update s.visited buffer []⟩
  | .copyRange buffer other =>
    match findRange s.table other with
    | none => none
    | some r =>
      if (findRange s.table buffer).isSome then
        none
      else
        some ⟨copyRange s.table buffer r, s.history ++ [(op, true)], Function.update s.visited buffer (s.visited other)⟩
  | .destroyRange buffer =>
    some ⟨destroyRange s.table buffer, s.history ++ [(op, true)], s.visited⟩
  | .destroyNurseryRanges =>
    some ⟨destroyNurseryRanges s.table, s.history ++ [(op, true)], s.visited⟩
  | .popFront buffer =>
    match (findRange s.table buffer).bind (fun r => r.front s.table) with
    | none => none
    | some e =>
      some ⟨popFront ops s.table buffer, s.history ++ [(op, true)],
        Function.update s.visited buffer (s.visited buffer ++ [e])⟩

def Range.drain (t : OrderedHashTable T) (r : Range) : List T :=
  match _h : r.front t with
  | none => []
  | some e => e :: drain t (r.popFront ops t)
termination_by t.data.length - r.i
decreasing_by
  have hlt := (List.getElem?_eq_some_iff.mp _h).1
  have hle := Range.le_seekFrom ops (t.data.drop (r.i + 1)) (r.i + 1)
  dsimp only [Range.popFront, Range.seek]
  omega

end OrderedHashTable
end SpiderMonkey
