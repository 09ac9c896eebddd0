import Mathlib.Data.Int.NatAbs

/-!
This module contains the queue between one producer and one consumer, whose calls are taken apart into their atomic
steps.
-/

namespace SpiderMonkey.SPSCQueue

def INT_MAX : Nat := 2 ^ 31 - 1

def add (a b : Nat) : Option Nat := if a + b ≤ INT_MAX then some (a + b) else none

structure MemoryOperations (T : Type) where
  ConstructDefault : T
  moveFrom : T → T

structure SPSCRingBuffer (T : Type) where
  mReadIndex : Nat
  mWriteIndex : Nat
  mCapacity : Nat
  mData : List T
deriving DecidableEq

namespace SPSCRingBuffer

variable {T : Type}

def new (ops : MemoryOperations T) (aCapacity : Nat) : Option (SPSCRingBuffer T) := do
  let mCapacity ← add aCapacity 1
  guard (mCapacity < INT_MAX / 2)
  guard (mCapacity > 0 ∧ aCapacity ≠ INT_MAX)
  return {
    mReadIndex := 0
    mWriteIndex := 0
    mCapacity
    mData := List.replicate mCapacity ops.ConstructDefault
  }

variable (q : SPSCRingBuffer T)

def StorageCapacity : Nat := q.mCapacity

def IsEmpty (aReadIndex aWriteIndex : Nat) : Bool := aWriteIndex = aReadIndex

def IsFull (aReadIndex aWriteIndex : Nat) : Option Bool := do
  return (← add aWriteIndex 1) % q.StorageCapacity = aReadIndex

def AvailableReadInternal (aReadIndex aWriteIndex : Nat) : Option Int := do
  if aWriteIndex ≥ aReadIndex then return aWriteIndex - aReadIndex
  else return (← add aWriteIndex q.StorageCapacity) - aReadIndex

def AvailableWriteInternal (aReadIndex aWriteIndex : Nat) : Int :=
  let rv : Int := aReadIndex - aWriteIndex - 1
  if aWriteIndex ≥ aReadIndex then rv + q.StorageCapacity else rv

def IncrementIndex (aIndex aIncrement : Nat) : Option Nat := do
  guard (aIncrement < q.StorageCapacity ∧ aIndex < q.StorageCapacity)
  return (← add aIndex aIncrement) % q.StorageCapacity

end SPSCRingBuffer

structure Transfer where
  index : Nat
  firstPart : Nat
  secondPart : Nat
deriving DecidableEq

namespace Transfer

variable (t : Transfer)

def count : Nat := t.firstPart + t.secondPart
def slot (k : Nat) : Nat := if k < t.firstPart then t.index + k else k - t.firstPart
def slots : List Nat := (List.range t.count).map t.slot

end Transfer

def SPSCRingBuffer.transfer {T : Type} (q : SPSCRingBuffer T) (index : Nat) (count : Int) : Transfer :=
  let firstPart : Int := min (q.StorageCapacity - index) count
  let secondPart := count - firstPart
  { index, firstPart := firstPart.toNat, secondPart := secondPart.toNat }

inductive Producer (T : Type) where
  | idle
  | enqueue (aElements : Option (List T)) (aCount : Nat) (transfer : Transfer) (moved : Nat)
deriving DecidableEq

def Producer.isIdle {T : Type} : Producer T → Bool
  | .idle => true
  | .enqueue .. => false

inductive Consumer (T : Type) where
  | idle
  | dequeue (elements : Bool) (transfer : Transfer) (buffer : List T)
deriving DecidableEq

def Consumer.isIdle {T : Type} : Consumer T → Bool
  | .idle => true
  | .dequeue .. => false

structure State (T : Type) where
  queue : SPSCRingBuffer T
  producer : Producer T
  consumer : Consumer T
  enqueued : List (List T × Nat)
  dequeued : List (List T × Nat)
deriving DecidableEq

-- A call loads the indexes at first; the other steps go on with it.
inductive Action (T : Type) where
  | Enqueue (aElements : List T)
  | EnqueueDefault (aCount : Nat)
  | produce
  | Dequeue (elements : Bool) (count : Nat)
  | consume
deriving DecidableEq

namespace State

variable {T : Type} (ops : MemoryOperations T) (s : State T)

def offered (aElements : Option (List T)) (aCount : Nat) : List T :=
  aElements.getD (List.replicate aCount ops.ConstructDefault)

def element (aElements : Option (List T)) (moved : Nat) : Option T :=
  match aElements with
  | some aElements => aElements[moved]?
  | none => some ops.ConstructDefault

def Enqueue (aElements : Option (List T)) (aCount : Nat) : Option (State T) := do
  guard s.producer.isIdle
  let rdIdx := s.queue.mReadIndex
  let wrIdx := s.queue.mWriteIndex
  if ← s.queue.IsFull rdIdx wrIdx then
    return { s with enqueued := s.enqueued ++ [(offered ops aElements aCount, 0)] }
  else
    let toWrite := min (s.queue.AvailableWriteInternal rdIdx wrIdx) aCount
    return { s with producer := .enqueue aElements aCount (s.queue.transfer wrIdx toWrite) 0 }

def produce : Option (State T) :=
  match s.producer with
  | .idle => none
  | .enqueue aElements aCount transfer moved => do
    let q := s.queue
    if moved < transfer.count then
      let element ← element ops aElements moved
      guard (transfer.slot moved < q.mData.length)
      return { s with
        queue := { q with mData := q.mData.set (transfer.slot moved) element }
        producer := .enqueue aElements aCount transfer (moved + 1) }
    else
      return { s with
        queue := { q with mWriteIndex := ← q.IncrementIndex transfer.index transfer.count }
        producer := .idle
        enqueued := s.enqueued ++ [(offered ops aElements aCount, transfer.count)] }

def Dequeue (elements : Bool) (count : Nat) : Option (State T) := do
  guard s.consumer.isIdle
  let wrIdx := s.queue.mWriteIndex
  let rdIdx := s.queue.mReadIndex
  if SPSCRingBuffer.IsEmpty rdIdx wrIdx then return { s with dequeued := s.dequeued ++ [([], 0)] }
  else
    let toRead := min (← s.queue.AvailableReadInternal rdIdx wrIdx) count
    return { s with consumer := .dequeue elements (s.queue.transfer rdIdx toRead) [] }

def consume : Option (State T) :=
  match s.consumer with
  | .idle => none
  | .dequeue elements transfer buffer => do
    let q := s.queue
    if elements ∧ buffer.length < transfer.count then
      let element ← q.mData[transfer.slot buffer.length]?
      return { s with
        queue := { q with mData := q.mData.set (transfer.slot buffer.length) (ops.moveFrom element) }
        consumer := .dequeue elements transfer (buffer ++ [element]) }
    else
      let discarded := transfer.slots.filterMap (q.mData[·]?)
      return { s with
        queue := { q with mReadIndex := ← q.IncrementIndex transfer.index transfer.count }
        consumer := .idle
        dequeued := s.dequeued ++ [(if elements then buffer else discarded, transfer.count)] }

def step (s : State T) : Action T → Option (State T)
  | .Enqueue aElements => s.Enqueue ops (some aElements) aElements.length
  | .EnqueueDefault aCount => s.Enqueue ops none aCount
  | .produce => s.produce ops
  | .Dequeue elements count => s.Dequeue elements count
  | .consume => s.consume ops

def run (aCapacity : Nat) (actions : List (Action T)) : Option (State T) := do
  let queue ← SPSCRingBuffer.new ops aCapacity
  actions.foldlM (step ops) { queue, producer := .idle, consumer := .idle, enqueued := [], dequeued := [] }

def accepted : List T := s.enqueued.flatMap fun (elements, count) => elements.take count
def finished : List T := s.dequeued.flatMap Prod.fst

end State

def Consumer.buffer {T : Type} : Consumer T → List T
  | .idle => []
  | .dequeue _ _ buffer => buffer

def Producer.slots {T : Type} : Producer T → List Nat
  | .idle => []
  | .enqueue _ _ transfer _ => transfer.slots

def Consumer.slots {T : Type} : Consumer T → List Nat
  | .idle => []
  | .dequeue _ transfer _ => transfer.slots

def State.taken {T : Type} (s : State T) : List T := s.finished ++ s.consumer.buffer

end SpiderMonkey.SPSCQueue
