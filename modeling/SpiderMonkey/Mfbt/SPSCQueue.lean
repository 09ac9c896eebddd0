import Mathlib.Data.Option.Basic
import SpiderMonkey.Lib.CircularBuffer
import SpiderMonkey.Lib.Run
import SpiderMonkey.Mfbt.Impl.SPSCQueue

/-!
This module contains that the queue is a bounded FIFO under every interleaving of its two parties: the invariant, that
every atomic step of either party keeps it, and the theorem.
-/

open List

namespace SpiderMonkey.SPSCQueue

open CircularBuffer

variable {T : Type} {ops : MemoryOperations T} {aCapacity : Nat} {s : State T}

structure Transfer.IsFrom (aCapacity position : Nat) (t : Transfer) : Prop where
  index : t.index = position % (aCapacity + 1)
  count_le : t.count ≤ aCapacity
  slot : ∀ k < t.count, t.slot k = (position + k) % (aCapacity + 1)

def Producer.written (ops : MemoryOperations T) : Producer T → List T
  | .idle => []
  | .enqueue aElements aCount _ moved => (State.offered ops aElements aCount).take moved

-- What a party knows may be out of date, but there is never less room or less to read than it knows.
def Producer.Fits (ops : MemoryOperations T) (aCapacity accepted finished : Nat) : Producer T → Prop
  | .idle => True
  | .enqueue aElements aCount t moved =>
    t.IsFrom aCapacity accepted ∧ accepted + t.count ≤ finished + aCapacity
      ∧ t.count ≤ (State.offered ops aElements aCount).length ∧ moved ≤ t.count

def Consumer.Fits (aCapacity accepted finished : Nat) : Consumer T → Prop
  | .idle => True
  | .dequeue elements t buffer =>
    t.IsFrom aCapacity finished ∧ finished + t.count ≤ accepted ∧ buffer.length ≤ t.count
      ∧ (elements = false → buffer = [])

-- The queue between the parties, what has been accepted, and what has been handed out by calls that have returned.
structure Synchronized (ops : MemoryOperations T) (aCapacity : Nat) (q : SPSCRingBuffer T) (p : Producer T)
    (c : Consumer T) (accepted finished : List T) : Prop where
  capacity_lt : aCapacity + 1 < INT_MAX / 2
  capacity : q.mCapacity = aCapacity + 1
  length : q.mData.length = aCapacity + 1
  writeIndex : q.mWriteIndex = accepted.length % (aCapacity + 1)
  readIndex : q.mReadIndex = finished.length % (aCapacity + 1)
  bounded : accepted.length ≤ finished.length + aCapacity
  fifo : ∃ rest, accepted = finished ++ c.buffer ++ rest
    ∧ Holds q.mData (finished.length + c.buffer.length) (rest ++ p.written ops)
  producer : p.Fits ops aCapacity accepted.length finished.length
  consumer : c.Fits aCapacity accepted.length finished.length

structure Invariant (ops : MemoryOperations T) (aCapacity : Nat) (s : State T) : Prop where
  synchronized : Synchronized ops aCapacity s.queue s.producer s.consumer s.accepted s.finished
  enqueued : ∀ call ∈ s.enqueued, call.2 ≤ call.1.length
  dequeued : ∀ call ∈ s.dequeued, call.1.length = call.2

section Indexes

variable {q : SPSCRingBuffer T} {a f : Nat}

theorem add_of_le (hfits : aCapacity + 1 < INT_MAX / 2) (h : m + n ≤ 2 * (aCapacity + 1))
    : add m n = some (m + n) := by
  unfold add
  rw [if_pos]
  omega

theorem mod_storage_lt (aCapacity p : Nat) : p % (aCapacity + 1) < aCapacity + 1 := Nat.mod_lt p (Nat.succ_pos aCapacity)

theorem mod_cases (hle : f ≤ a) (hlt : a ≤ f + aCapacity)
    : (f % (aCapacity + 1) ≤ a % (aCapacity + 1) ∧ a % (aCapacity + 1) = f % (aCapacity + 1) + (a - f))
      ∨ (a % (aCapacity + 1) < f % (aCapacity + 1)
        ∧ a % (aCapacity + 1) + (aCapacity + 1) = f % (aCapacity + 1) + (a - f)) := by
  have hmod : a % (aCapacity + 1) = (f % (aCapacity + 1) + (a - f)) % (aCapacity + 1) := by
    rw [Nat.mod_add_mod, Nat.add_sub_cancel' hle]
  have hf := mod_storage_lt aCapacity f
  rw [add_mod_of_lt hf (by omega)] at hmod
  split at hmod
  . left
    omega
  . right
    omega

theorem IsFull_eq (hfits : aCapacity + 1 < INT_MAX / 2) (hcapacity : q.mCapacity = aCapacity + 1) (hle : f ≤ a)
    (hlt : a ≤ f + aCapacity)
    : q.IsFull (f % (aCapacity + 1)) (a % (aCapacity + 1)) = some (decide (a = f + aCapacity)) := by
  have ha := mod_storage_lt aCapacity a
  unfold SPSCRingBuffer.IsFull SPSCRingBuffer.StorageCapacity
  rw [hcapacity, add_of_le hfits (by omega), some_bind, Nat.mod_add_mod]
  apply congrArg some
  apply decide_eq_decide.mpr
  constructor
  . intro heq
    by_contra hne
    exact mod_ne_of_lt (show f < a + 1 by omega) (by omega) heq.symm
  . rintro rfl
    rw [Nat.add_assoc, Nat.add_mod_right]

theorem IsEmpty_eq (hle : f ≤ a) (hlt : a ≤ f + aCapacity)
    : SPSCRingBuffer.IsEmpty (f % (aCapacity + 1)) (a % (aCapacity + 1)) = decide (a = f) := by
  apply decide_eq_decide.mpr
  constructor
  . intro heq
    by_contra hne
    exact mod_ne_of_lt (show f < a by omega) (by omega) heq.symm
  . rintro rfl
    rfl

theorem AvailableReadInternal_eq (hfits : aCapacity + 1 < INT_MAX / 2) (hcapacity : q.mCapacity = aCapacity + 1)
    (hle : f ≤ a) (hlt : a ≤ f + aCapacity)
    : q.AvailableReadInternal (f % (aCapacity + 1)) (a % (aCapacity + 1)) = some ((a - f : Nat) : Int) := by
  have ha := mod_storage_lt aCapacity a
  unfold SPSCRingBuffer.AvailableReadInternal SPSCRingBuffer.StorageCapacity
  rw [hcapacity, add_of_le hfits (by omega)]
  rcases mod_cases hle hlt with ⟨hmod, heq⟩ | ⟨hmod, heq⟩
  . rw [if_pos hmod]
    apply congrArg some
    omega
  rw [if_neg (Nat.not_le.mpr hmod)]
  apply congrArg some
  omega

theorem AvailableWriteInternal_eq (hcapacity : q.mCapacity = aCapacity + 1) (hle : f ≤ a) (hlt : a ≤ f + aCapacity)
    : q.AvailableWriteInternal (f % (aCapacity + 1)) (a % (aCapacity + 1)) = ((f + aCapacity - a : Nat) : Int) := by
  unfold SPSCRingBuffer.AvailableWriteInternal SPSCRingBuffer.StorageCapacity
  rw [hcapacity]
  dsimp only
  rcases mod_cases hle hlt with ⟨hmod, heq⟩ | ⟨hmod, heq⟩
  . rw [if_pos hmod]
    omega
  . rw [if_neg (Nat.not_le.mpr hmod)]
    omega

theorem IncrementIndex_eq (hfits : aCapacity + 1 < INT_MAX / 2) (hcapacity : q.mCapacity = aCapacity + 1)
    (hn : n ≤ aCapacity) (p : Nat)
    : q.IncrementIndex (p % (aCapacity + 1)) n = some ((p + n) % (aCapacity + 1)) := by
  have hp := mod_storage_lt aCapacity p
  unfold SPSCRingBuffer.IncrementIndex SPSCRingBuffer.StorageCapacity
  rw [hcapacity, guard, if_pos ⟨Nat.lt_succ_of_le hn, hp⟩, add_of_le hfits (by omega)]
  exact congrArg some (Nat.mod_add_mod _ _ _)

theorem transfer_isFrom (hcapacity : q.mCapacity = aCapacity + 1) (hn : n ≤ aCapacity) (p : Nat)
    : (q.transfer (p % (aCapacity + 1)) n).count = n ∧ (q.transfer (p % (aCapacity + 1)) n).IsFrom aCapacity p := by
  have hp := mod_storage_lt aCapacity p
  have hcount : (q.transfer (p % (aCapacity + 1)) n).count = n := by
    unfold SPSCRingBuffer.transfer Transfer.count SPSCRingBuffer.StorageCapacity
    rw [hcapacity]
    dsimp only
    omega
  refine ⟨hcount, rfl, hcount.symm ▸ hn, fun k hk => ?_⟩
  rw [hcount] at hk
  rw [← Nat.mod_add_mod, add_mod_of_lt hp (by omega)]
  unfold SPSCRingBuffer.transfer Transfer.slot SPSCRingBuffer.StorageCapacity
  rw [hcapacity]
  dsimp only
  split <;> split <;> omega

end Indexes

section Synchronized

variable {aElements : Option (List T)} {aCount : Nat} {q : SPSCRingBuffer T} {p : Producer T} {c : Consumer T}
  {accepted finished : List T} {t : Transfer}

theorem Synchronized.finished_le (hs : Synchronized ops aCapacity q p c accepted finished)
    : finished.length ≤ accepted.length := by
  obtain ⟨rest, rfl, _⟩ := hs.fifo
  rw [append_assoc, length_append]
  exact Nat.le_add_right _ _

theorem Synchronized.written_le (hs : Synchronized ops aCapacity q p c accepted finished)
    : accepted.length + (p.written ops).length ≤ finished.length + aCapacity := by
  have hbounded := hs.bounded
  have hproducer := hs.producer
  cases p with
  | idle => exact hbounded
  | enqueue aElements aCount t moved =>
    obtain ⟨_, hroom, _, hmoved⟩ := hproducer
    have hle := length_take_le moved (State.offered ops aElements aCount)
    unfold Producer.written
    dsimp only
    omega

theorem element_eq {moved : Nat} (hmoved : moved < (State.offered ops aElements aCount).length)
    : State.element ops aElements moved = (State.offered ops aElements aCount)[moved]? := by
  cases aElements with
  | some aElements => rfl
  | none =>
    have hlt : moved < aCount := by
      unfold State.offered at hmoved
      rwa [Option.getD_none, length_replicate] at hmoved
    unfold State.offered State.element
    rw [Option.getD_none, List.getElem?_replicate, if_pos hlt]

theorem Synchronized.write {moved : Nat}
    (hs : Synchronized ops aCapacity q (.enqueue aElements aCount t moved) c accepted finished)
    (hlt : moved < t.count) (hx : (State.offered ops aElements aCount)[moved]? = some x)
    : Synchronized ops aCapacity { q with mData := q.mData.set (t.slot moved) x }
      (.enqueue aElements aCount t (moved + 1)) c accepted finished := by
  obtain ⟨rest, haccepted, hholds⟩ := hs.fifo
  obtain ⟨hfrom, hroom, hoffered, hmoved⟩ := hs.producer
  have hslot := hfrom.slot moved hlt
  have hlength : accepted.length = finished.length + c.buffer.length + rest.length := by
    rw [haccepted, length_append, length_append]
  have hwritten : (State.offered ops aElements aCount).take moved ++ [x]
      = (State.offered ops aElements aCount).take (moved + 1) := by
    rw [take_add_one, hx]
    rfl
  have hcount : (rest ++ (State.offered ops aElements aCount).take moved).length = rest.length + moved := by
    rw [length_append, length_take, Nat.min_eq_left (by omega)]
  unfold Producer.written at hholds
  have hconcat := hholds.concat (by rw [hcount, hs.length]; omega) x
  rw [hcount, ← Nat.add_assoc, ← hlength, hs.length, ← hslot, append_assoc, hwritten] at hconcat
  exact { hs with
    length := length_set.trans hs.length
    fifo := ⟨rest, haccepted, hconcat⟩
    producer := ⟨hfrom, hroom, hoffered, hlt⟩ }

theorem Synchronized.storeWrite
    (hs : Synchronized ops aCapacity q (.enqueue aElements aCount t t.count) c accepted finished)
    : Synchronized ops aCapacity { q with mWriteIndex := (accepted.length + t.count) % (aCapacity + 1) } .idle c
      (accepted ++ (State.offered ops aElements aCount).take t.count) finished := by
  obtain ⟨rest, haccepted, hholds⟩ := hs.fifo
  obtain ⟨_, hroom, hoffered, _⟩ := hs.producer
  have htake : ((State.offered ops aElements aCount).take t.count).length = t.count := by
    rw [length_take]
    omega
  refine { hs with
    writeIndex := ?_
    bounded := ?_
    fifo := ⟨rest ++ (State.offered ops aElements aCount).take t.count, ?_, ?_⟩
    producer := trivial
    consumer := ?_ }
  . rw [length_append, htake]
  . rw [length_append, htake]
    exact hroom
  . rw [haccepted, append_assoc]
  . unfold Producer.written at hholds ⊢
    rw [append_nil]
    exact hholds
  . have hconsumer := hs.consumer
    rw [length_append]
    cases c with
    | idle => trivial
    | dequeue elements t' buffer =>
      obtain ⟨hfrom', hthere, hbuffer⟩ := hconsumer
      exact ⟨hfrom', Nat.le_trans hthere (Nat.le_add_right _ _), hbuffer⟩

theorem Synchronized.read {buffer : List T}
    (hs : Synchronized ops aCapacity q p (.dequeue true t buffer) accepted finished) (hlt : buffer.length < t.count)
    : ∃ x, q.mData[t.slot buffer.length]? = some x
      ∧ Synchronized ops aCapacity { q with mData := q.mData.set (t.slot buffer.length) (ops.moveFrom x) } p
        (.dequeue true t (buffer ++ [x])) accepted finished := by
  obtain ⟨rest, haccepted, hholds⟩ := hs.fifo
  obtain ⟨hfrom, hthere, _, _⟩ := hs.consumer
  unfold Consumer.buffer at haccepted hholds
  dsimp only at haccepted hholds
  have hlength : accepted.length = finished.length + buffer.length + rest.length := by
    rw [haccepted, length_append, length_append]
  have hwritten := hs.written_le
  have hslot := hfrom.slot buffer.length hlt
  rw [← hs.length] at hslot
  cases rest with
  | nil =>
    rw [length_nil] at hlength
    omega
  | cons x rest =>
    rw [length_cons] at hlength
    rw [cons_append] at hholds
    have hx := hholds.head
    rw [← hslot] at hx
    have htail := hholds.tail (by rw [length_append, hs.length]; omega) (ops.moveFrom x)
    rw [← hslot] at htail
    refine ⟨x, hx, { hs with
      length := length_set.trans hs.length
      fifo := ⟨rest, ?_, ?_⟩
      consumer := ⟨hfrom, hthere, ?_, (nomatch ·)⟩ }⟩
    . unfold Consumer.buffer
      rw [haccepted, append_cons, append_assoc finished]
    . unfold Consumer.buffer
      dsimp only
      rw [length_append]
      exact htail
    . rw [length_append]
      exact hlt

theorem Synchronized.storeRead {elements : Bool} {buffer handed rest : List T}
    (hs : Synchronized ops aCapacity q p (.dequeue elements t buffer) accepted finished)
    (hhanded : handed.length = t.count) (haccepted : accepted = finished ++ handed ++ rest)
    (hholds : Holds q.mData (finished.length + t.count) (rest ++ p.written ops))
    : Synchronized ops aCapacity { q with mReadIndex := (finished.length + t.count) % (aCapacity + 1) } p .idle accepted
      (finished ++ handed) := by
  have hbounded := hs.bounded
  have hfinished : (finished ++ handed).length = finished.length + t.count := by
    rw [length_append, hhanded]
  refine { hs with
    readIndex := ?_
    bounded := ?_
    fifo := ⟨rest, ?_, ?_⟩
    producer := ?_
    consumer := trivial }
  . rw [hfinished]
  . rw [hfinished]
    omega
  . unfold Consumer.buffer
    rw [haccepted, append_nil]
  . unfold Consumer.buffer
    rw [hfinished]
    exact hholds
  . rw [hfinished]
    have hproducer := hs.producer
    cases p with
    | idle => trivial
    | enqueue aElements aCount t' moved =>
      obtain ⟨hfrom', hroom, hoffered⟩ := hproducer
      exact ⟨hfrom', by omega, hoffered⟩

theorem Synchronized.discarded_eq {buffer rest : List T}
    (hs : Synchronized ops aCapacity q p (.dequeue false t buffer) accepted finished)
    (hholds : Holds q.mData finished.length (rest ++ p.written ops)) (hle : t.count ≤ rest.length)
    : t.slots.filterMap (q.mData[·]?) = rest.take t.count := by
  obtain ⟨hfrom, _⟩ := hs.consumer
  have htake : (rest.take t.count).length = t.count := by
    rw [length_take, Nat.min_eq_left hle]
  have hleft : Holds q.mData finished.length (rest.take t.count) := by
    rw [← take_append_drop t.count rest, append_assoc] at hholds
    exact hholds.left
  have hmap := hleft.filterMap
  rw [htake, hs.length] at hmap
  unfold Transfer.slots
  rw [filterMap_map, ← hmap]
  apply filterMap_congr
  intro k hk
  rw [Function.comp_apply, hfrom.slot k (mem_range.mp hk)]

end Synchronized

section Steps

variable {aElements : Option (List T)} {aCount : Nat}

theorem Invariant.enqueued_concat {elements : List T} {count : Nat} (h : Invariant ops aCapacity s)
    (hs : Synchronized ops aCapacity q p s.consumer (s.accepted ++ elements.take count) s.finished)
    (hcount : count ≤ elements.length)
    : Invariant ops aCapacity { s with queue := q, producer := p, enqueued := s.enqueued ++ [(elements, count)] } where
  synchronized := by
    have haccepted : State.accepted { s with queue := q, producer := p, enqueued := s.enqueued ++ [(elements, count)] }
        = s.accepted ++ elements.take count := by
      unfold State.accepted
      rw [flatMap_append, flatMap_singleton]
    exact haccepted ▸ hs
  enqueued := by
    rw [forall_mem_append, forall_mem_singleton]
    exact ⟨h.enqueued, hcount⟩
  dequeued := h.dequeued

theorem Invariant.dequeued_concat {elements : List T} {count : Nat} (h : Invariant ops aCapacity s)
    (hs : Synchronized ops aCapacity q s.producer c s.accepted (s.finished ++ elements)) (hcount : elements.length = count)
    : Invariant ops aCapacity { s with queue := q, consumer := c, dequeued := s.dequeued ++ [(elements, count)] } where
  synchronized := by
    have hfinished : State.finished { s with queue := q, consumer := c, dequeued := s.dequeued ++ [(elements, count)] }
        = s.finished ++ elements := by
      unfold State.finished
      rw [flatMap_append, flatMap_singleton]
    exact hfinished ▸ hs
  enqueued := h.enqueued
  dequeued := by
    rw [forall_mem_append, forall_mem_singleton]
    exact ⟨h.dequeued, hcount⟩

theorem Enqueue_inv (h : Invariant ops aCapacity s) (hidle : s.producer = .idle)
    (hcount : aCount ≤ (State.offered ops aElements aCount).length)
    : ∃ s', s.Enqueue ops aElements aCount = some s' ∧ Invariant ops aCapacity s' := by
  have hs := h.synchronized
  have hle := hs.finished_le
  have hbounded := hs.bounded
  unfold State.Enqueue
  rw [hidle, Producer.isIdle, guard, if_pos rfl, Option.pure_def, some_bind]
  dsimp only
  rw [hs.readIndex, hs.writeIndex, IsFull_eq hs.capacity_lt hs.capacity hle hbounded, some_bind]
  split
  next =>
    refine ⟨_, rfl, h.enqueued_concat ?_ (Nat.zero_le _)⟩
    rw [take_zero, append_nil, ← hidle]
    exact hs
  next =>
    obtain ⟨n, hn⟩ : ∃ n, n = min (s.finished.length + aCapacity - s.accepted.length) aCount := ⟨_, rfl⟩
    have hmin : min (s.queue.AvailableWriteInternal (s.finished.length % (aCapacity + 1))
        (s.accepted.length % (aCapacity + 1))) (aCount : Int) = (n : Int) := by
      rw [AvailableWriteInternal_eq hs.capacity hle hbounded]
      omega
    obtain ⟨hcountEq, hfrom⟩ := transfer_isFrom hs.capacity (show n ≤ aCapacity by omega) s.accepted.length
    rw [hmin]
    refine ⟨_, rfl, ?_, h.enqueued, h.dequeued⟩
    obtain ⟨rest, haccepted, hholds⟩ := hs.fifo
    rw [hidle] at hholds
    refine { hs with fifo := ⟨rest, haccepted, hholds⟩, producer := ⟨hfrom, ?_, ?_, Nat.zero_le _⟩ }
    . rw [hcountEq]
      change s.accepted.length + n ≤ s.finished.length + aCapacity
      omega
    . rw [hcountEq]
      omega

theorem produce_inv (h : Invariant ops aCapacity s) (hbusy : s.producer.isIdle = false)
    : ∃ s', s.produce ops = some s' ∧ Invariant ops aCapacity s' := by
  have hs := h.synchronized
  unfold State.produce
  cases hproducer : s.producer with
  | idle =>
    rw [hproducer] at hbusy
    cases hbusy
  | enqueue aElements aCount t moved =>
    rw [hproducer] at hs
    obtain ⟨hfrom, _, hoffered, hmoved⟩ := hs.producer
    dsimp only
    split
    next hlt =>
      have hthere : moved < (State.offered ops aElements aCount).length := Nat.lt_of_lt_of_le hlt hoffered
      have hx : (State.offered ops aElements aCount)[moved]? = some _ := List.getElem?_eq_getElem hthere
      have hbound : t.slot moved < s.queue.mData.length := by
        rw [hfrom.slot moved hlt, hs.length]
        exact mod_storage_lt aCapacity _
      rw [element_eq hthere, hx, some_bind, guard, if_pos hbound]
      exact ⟨_, rfl, hs.write hlt hx, h.enqueued, h.dequeued⟩
    next hge =>
      obtain rfl : moved = t.count := by omega
      rw [hfrom.index, IncrementIndex_eq hs.capacity_lt hs.capacity hfrom.count_le, some_bind]
      exact ⟨_, rfl, h.enqueued_concat hs.storeWrite hoffered⟩

theorem Dequeue_inv (h : Invariant ops aCapacity s) (hidle : s.consumer = .idle) (elements : Bool) (count : Nat)
    : ∃ s', s.Dequeue elements count = some s' ∧ Invariant ops aCapacity s' := by
  have hs := h.synchronized
  have hle := hs.finished_le
  have hbounded := hs.bounded
  unfold State.Dequeue
  rw [hidle, Consumer.isIdle, guard, if_pos rfl, Option.pure_def, some_bind]
  dsimp only
  rw [hs.readIndex, hs.writeIndex, IsEmpty_eq hle hbounded]
  split
  next =>
    refine ⟨_, rfl, h.dequeued_concat ?_ length_nil⟩
    rw [append_nil, ← hidle]
    exact hs
  next =>
    obtain ⟨n, hn⟩ : ∃ n, n = min (s.accepted.length - s.finished.length) count := ⟨_, rfl⟩
    have hmin : min ((s.accepted.length - s.finished.length : Nat) : Int) (count : Int) = (n : Int) := by omega
    obtain ⟨hcountEq, hfrom⟩ := transfer_isFrom hs.capacity (show n ≤ aCapacity by omega) s.finished.length
    rw [AvailableReadInternal_eq hs.capacity_lt hs.capacity hle hbounded, some_bind, hmin]
    refine ⟨_, rfl, ?_, h.enqueued, h.dequeued⟩
    obtain ⟨rest, haccepted, hholds⟩ := hs.fifo
    rw [hidle] at haccepted hholds
    refine { hs with fifo := ⟨rest, haccepted, hholds⟩, consumer := ⟨hfrom, ?_, Nat.zero_le _, fun _ => rfl⟩ }
    rw [hcountEq]
    change s.finished.length + n ≤ s.accepted.length
    omega

theorem consume_inv (h : Invariant ops aCapacity s) (hbusy : s.consumer.isIdle = false)
    : ∃ s', s.consume ops = some s' ∧ Invariant ops aCapacity s' := by
  have hs := h.synchronized
  unfold State.consume
  cases hconsumer : s.consumer with
  | idle =>
    rw [hconsumer] at hbusy
    cases hbusy
  | dequeue elements t buffer =>
    rw [hconsumer] at hs
    obtain ⟨hfrom, hthere, hbuffer, hdiscards⟩ := hs.consumer
    dsimp only
    split
    next hmore =>
      obtain ⟨rfl, hlt⟩ := hmore
      obtain ⟨x, hx, hs'⟩ := hs.read hlt
      rw [hx, some_bind]
      exact ⟨_, rfl, hs', h.enqueued, h.dequeued⟩
    next hmore =>
      obtain ⟨rest, haccepted, hholds⟩ := hs.fifo
      unfold Consumer.buffer at haccepted hholds
      dsimp only at haccepted hholds
      rw [hfrom.index, IncrementIndex_eq hs.capacity_lt hs.capacity hfrom.count_le, some_bind]
      cases elements with
      | true =>
        have hall : buffer.length = t.count := by
          have hge : ¬buffer.length < t.count := fun hlt => hmore ⟨rfl, hlt⟩
          omega
        rw [if_pos rfl]
        exact ⟨_, rfl, h.dequeued_concat (hs.storeRead hall haccepted (hall ▸ hholds)) hall⟩
      | false =>
        obtain rfl := hdiscards rfl
        rw [append_nil] at haccepted
        have hlength : t.count ≤ rest.length := by
          rw [haccepted, length_append] at hthere
          omega
        have htake : (rest.take t.count).length = t.count := by
          rw [length_take, Nat.min_eq_left hlength]
        have hdrop : Holds s.queue.mData (s.finished.length + t.count) (rest.drop t.count ++ s.producer.written ops) := by
          rw [← take_append_drop t.count rest, append_assoc] at hholds
          have hright := hholds.right
          rw [htake] at hright
          exact hright
        rw [if_neg Bool.false_ne_true, hs.discarded_eq hholds hlength]
        refine ⟨_, rfl, h.dequeued_concat (hs.storeRead htake ?_ hdrop) htake⟩
        rw [haccepted, append_assoc, take_append_drop]

end Steps

def Action.Enabled (s : State T) : Action T → Prop
  | .Enqueue _ | .EnqueueDefault _ => s.producer.isIdle = true
  | .produce => s.producer.isIdle = false
  | .Dequeue _ _ => s.consumer.isIdle = true
  | .consume => s.consumer.isIdle = false

theorem isIdle_iff {p : Producer T} : p.isIdle = true ↔ p = .idle := by
  cases p <;> simp [Producer.isIdle]

theorem isIdle_iff' {c : Consumer T} : c.isIdle = true ↔ c = .idle := by
  cases c <;> simp [Consumer.isIdle]

theorem step_inv (h : Invariant ops aCapacity s) (henabled : action.Enabled s)
    : ∃ s', s.step ops action = some s' ∧ Invariant ops aCapacity s' := by
  cases action with
  | Enqueue aElements => exact Enqueue_inv h (isIdle_iff.mp henabled) (Nat.le_refl _)
  | EnqueueDefault aCount =>
    apply Enqueue_inv h (isIdle_iff.mp henabled)
    exact Nat.le_of_eq length_replicate.symm
  | produce => exact produce_inv h henabled
  | Dequeue elements count => exact Dequeue_inv h (isIdle_iff'.mp henabled) elements count
  | consume => exact consume_inv h henabled

theorem enabled_of_step (hstep : s.step ops action = some s')
    : action.Enabled s := by
  have hstarts {b : Bool} {f : Unit → Option (State T)} (h : (guard (f := Option) (b = true)).bind f = some s')
      : b = true := by
    by_contra hnot
    rw [guard, if_neg hnot] at h
    cases h
  cases action with
  | Enqueue aElements => exact hstarts hstep
  | EnqueueDefault aCount => exact hstarts hstep
  | produce =>
    cases hproducer : s.producer with
    | idle => simp [State.step, State.produce, hproducer] at hstep
    | enqueue => simp [Action.Enabled, Producer.isIdle, hproducer]
  | Dequeue elements count => exact hstarts hstep
  | consume =>
    cases hconsumer : s.consumer with
    | idle => simp [State.step, State.consume, hconsumer] at hstep
    | dequeue => simp [Action.Enabled, Consumer.isIdle, hconsumer]

theorem new_inv {queue : SPSCRingBuffer T} (hnew : SPSCRingBuffer.new ops aCapacity = some queue)
    : Invariant ops aCapacity { queue, producer := .idle, consumer := .idle, enqueued := [], dequeued := [] } := by
  unfold SPSCRingBuffer.new at hnew
  obtain ⟨mCapacity, hadd, hnew⟩ := Option.bind_eq_some_iff.mp hnew
  obtain ⟨_, hfits, hnew⟩ := Option.bind_eq_some_iff.mp hnew
  obtain ⟨_, _, hnew⟩ := Option.bind_eq_some_iff.mp hnew
  cases hnew
  have hcapacity : mCapacity = aCapacity + 1 := by
    unfold add at hadd
    split at hadd
    . exact (Option.some.inj hadd).symm
    . cases hadd
  have hlt : mCapacity < INT_MAX / 2 := by
    by_contra hnot
    rw [guard, if_neg hnot] at hfits
    cases hfits
  refine ⟨⟨hcapacity ▸ hlt, hcapacity, ?_, (Nat.zero_mod _).symm, (Nat.zero_mod _).symm, Nat.zero_le _,
    ⟨[], rfl, holds_nil⟩, trivial, trivial⟩, forall_mem_nil _, forall_mem_nil _⟩
  rw [length_replicate, hcapacity]

theorem run_inv (hrun : State.run ops aCapacity actions = some s)
    : Invariant ops aCapacity s := by
  unfold State.run at hrun
  obtain ⟨queue, hnew, hrun⟩ := Option.bind_eq_some_iff.mp hrun
  have hstep (s : State T) (action : Action T) (s' : State T) (h : Invariant ops aCapacity s) (_ : True)
      (hstep : s.step ops action = some s') : Invariant ops aCapacity s' := by
    obtain ⟨t, ht, hinv⟩ := step_inv h (enabled_of_step hstep)
    rw [hstep] at ht
    cases ht
    exact hinv
  exact Run.foldlM_inv_of_meets hstep (new_inv hnew) hrun fun _ _ _ _ _ => trivial

theorem slots_disjoint (h : Invariant ops aCapacity s) : ∀ i ∈ s.producer.slots, i ∉ s.consumer.slots := by
  have hproducer := h.synchronized.producer
  have hconsumer := h.synchronized.consumer
  intro i hi hi'
  cases hp : s.producer with
  | idle =>
    rw [hp] at hi
    cases hi
  | enqueue aElements aCount t moved =>
    cases hc : s.consumer with
    | idle =>
      rw [hc] at hi'
      cases hi'
    | dequeue elements t' buffer =>
      rw [hp] at hproducer hi
      rw [hc] at hconsumer hi'
      obtain ⟨hfrom, hroom, _⟩ := hproducer
      obtain ⟨hfrom', hthere, _⟩ := hconsumer
      obtain ⟨k, hk, rfl⟩ := mem_map.mp hi
      obtain ⟨j, hj, hslot⟩ := mem_map.mp hi'
      rw [mem_range] at hk hj
      rw [hfrom.slot k hk, hfrom'.slot j hj] at hslot
      exact mod_ne_of_lt (by omega) (by omega) hslot

structure IsBoundedFifo (ops : MemoryOperations T) (aCapacity : Nat) (s : State T) : Prop where
  fifo : s.taken <+: s.accepted
  holds : Holds s.queue.mData s.taken.length (s.accepted.drop s.taken.length)
  length : s.queue.mData.length = aCapacity + 1
  writeIndex : s.queue.mWriteIndex = s.accepted.length % (aCapacity + 1)
  readIndex : s.queue.mReadIndex = s.finished.length % (aCapacity + 1)
  bounded : s.accepted.length - s.taken.length ≤ aCapacity
  disjoint : ∀ i ∈ s.producer.slots, i ∉ s.consumer.slots
  enqueued : ∀ call ∈ s.enqueued, call.2 ≤ call.1.length
  dequeued : ∀ call ∈ s.dequeued, call.1.length = call.2
  goes_on : ∀ action, Action.Enabled s action → ∃ s', s.step ops action = some s'

theorem queue_boundedFifo (actions : List (Action T)) (hrun : State.run ops aCapacity actions = some s)
    : IsBoundedFifo ops aCapacity s := by
  have h := run_inv hrun
  have hs := h.synchronized
  obtain ⟨rest, haccepted, hholds⟩ := hs.fifo
  have htaken : s.taken.length = s.finished.length + s.consumer.buffer.length := length_append
  refine ⟨⟨rest, haccepted.symm⟩, ?_, hs.length, hs.writeIndex, hs.readIndex, ?_, slots_disjoint h, h.enqueued, h.dequeued,
    fun action henabled => ?_⟩
  . have hrest : s.accepted.drop s.taken.length = rest := by
      rw [haccepted]
      exact drop_left
    rw [hrest, htaken]
    exact hholds.left
  . have hbounded := hs.bounded
    omega
  . obtain ⟨s', hstep, _⟩ := step_inv h henabled
    exact ⟨s', hstep⟩

def aroundTheEnd : List (Action Nat) :=
  [.Enqueue [1, 2, 3], .produce, .produce, .produce, .Dequeue true 5, .consume, .Enqueue [4], .consume, .consume,
    .EnqueueDefault 2, .produce, .Dequeue false 1]

theorem queue_boundedFifo_of_two
    : ∃ s, State.run ⟨0, id⟩ 2 aroundTheEnd = some s ∧ IsBoundedFifo ⟨0, id⟩ 2 s := by
  have hsome : (State.run ⟨0, id⟩ 2 aroundTheEnd).isSome = true := by decide
  obtain ⟨s, hrun⟩ := Option.isSome_iff_exists.mp hsome
  exact ⟨s, hrun, queue_boundedFifo aroundTheEnd hrun⟩

end SpiderMonkey.SPSCQueue
