import Mathlib.Data.List.Nodup
import Mathlib.Data.Option.Basic
import SpiderMonkey.Builtin.Impl.AsyncGenerator
import SpiderMonkey.Lib.Run

/-!
This module contains that the requests of an async generator are answered in their order, and that its body is resumed
for the first of them only, unless user code that runs while a request is answered gets another one started.
-/

namespace SpiderMonkey.AsyncGenerator

open List

variable {α : Type}

variable {request : AsyncGeneratorRequest α} {rest : List (AsyncGeneratorRequest α)}

section

variable {m : Machine α}

def queueIds (m : Machine α) : List Nat :=
  match m.generator.queueOrRequest with
  | .null => []
  | .request r => [r]
  | .list queue => queue

def queued (m : Machine α) : List (AsyncGeneratorRequest α) := (queueIds m).filterMap (m.requests[·]?)

structure WellFormed (m : Machine α) : Prop where
  nodup : (queueIds m).Nodup
  bound : ∀ r ∈ queueIds m, r < m.requests.length
  cached : ∀ r ∈ m.generator.cachedRequest, r ∉ queueIds m ∧ r < m.requests.length

structure SameOutside (m m' : Machine α) : Prop where
  state : m'.generator.state = m.generator.state
  resumeIndex : m'.generator.resumeIndex = m.generator.resumeIndex
  promises : m'.promises = m.promises
  reactions : m'.reactions = m.reactions
  pending : m'.pending = m.pending
  stack : m'.stack = m.stack
  events : m'.events = m.events

theorem isQueueEmpty_eq (m : Machine α) : isQueueEmpty m = (queueIds m).isEmpty := by
  unfold isQueueEmpty queueIds
  cases m.generator.queueOrRequest <;> rfl

theorem queueLength_eq (m : Machine α) : queueLength m = (queueIds m).length := by
  unfold queueLength queueIds
  cases m.generator.queueOrRequest <;> rfl

theorem WellFormed.queued_eq (h : WellFormed m) : (queued m).map some = (queueIds m).map (m.requests[·]?) := by
  have hall (ids : List Nat) (hbound : ∀ r ∈ ids, r < m.requests.length)
      : (ids.filterMap (m.requests[·]?)).map some = ids.map (m.requests[·]?) := by
    induction ids with
    | nil => rfl
    | cons r ids ih =>
      rw [filterMap_cons, List.getElem?_eq_getElem (hbound r mem_cons_self), map_cons, map_cons,
        ih fun s hs => hbound s (mem_cons_of_mem r hs), List.getElem?_eq_getElem (hbound r mem_cons_self)]
  exact hall (queueIds m) h.bound

theorem WellFormed.length_queued (h : WellFormed m) : (queued m).length = (queueIds m).length := by
  have hlength := congrArg List.length h.queued_eq
  rwa [length_map, length_map] at hlength

theorem WellFormed.isQueueEmpty_iff (h : WellFormed m) : isQueueEmpty m ↔ queued m = [] := by
  rw [isQueueEmpty_eq, List.isEmpty_iff, ← length_eq_zero_iff, ← h.length_queued, length_eq_zero_iff]

theorem peekRequest_eq (m : Machine α) : peekRequest m = (queueIds m).head?.bind (m.requests[·]?) := by
  unfold peekRequest queueIds
  cases m.generator.queueOrRequest <;> rfl

theorem WellFormed.peekRequest_head (h : WellFormed m) : peekRequest m = (queued m).head? := by
  have hqueued := h.queued_eq
  rw [peekRequest_eq]
  cases hids : queueIds m with
  | nil =>
    rw [hids, map_nil, map_eq_nil_iff] at hqueued
    rw [hqueued]
    rfl
  | cons r ids =>
    rw [hids, map_cons] at hqueued
    cases hcontents : queued m with
    | nil =>
      rw [hcontents] at hqueued
      exact absurd hqueued (cons_ne_nil _ _).symm
    | cons c cs =>
      rw [hcontents, map_cons] at hqueued
      exact (cons_eq_cons.mp hqueued).1.symm

theorem queueIds_enqueueRequest (m : Machine α) (r : Nat) : queueIds (enqueueRequest m r) = queueIds m ++ [r] := by
  unfold enqueueRequest queueIds setQueueOrRequest
  cases m.generator.queueOrRequest <;> rfl

theorem enqueueRequest_sameOutside (m : Machine α) (r : Nat)
    : SameOutside m (enqueueRequest m r) ∧ (enqueueRequest m r).requests = m.requests
      ∧ (enqueueRequest m r).generator.cachedRequest = m.generator.cachedRequest := by
  unfold enqueueRequest setQueueOrRequest
  cases m.generator.queueOrRequest <;> exact ⟨⟨rfl, rfl, rfl, rfl, rfl, rfl, rfl⟩, rfl, rfl⟩

theorem createRequest_spec (h : WellFormed m) (completionKind : CompletionKind) (completionValue : Value α)
    (promise : Nat)
    : ∃ r m', createRequest m completionKind completionValue promise = (r, m') ∧ SameOutside m m'
      ∧ queueIds m' = queueIds m ∧ m'.generator.cachedRequest = none ∧ m.requests.length ≤ m'.requests.length
      ∧ r ∉ queueIds m ∧ m'.requests[r]? = some ⟨completionKind, completionValue, some promise⟩
      ∧ ∀ s ∈ queueIds m, m'.requests[s]? = m.requests[s]? := by
  unfold createRequest
  cases hcached : m.generator.cachedRequest with
  | none =>
    refine ⟨_, _, rfl, ⟨rfl, rfl, rfl, rfl, rfl, rfl, rfl⟩, rfl, hcached, ?_, ?_, ?_, ?_⟩
    . rw [length_append]
      exact Nat.le_add_right ..
    . exact fun hmem => Nat.lt_irrefl _ (h.bound _ hmem)
    . exact List.getElem?_concat_length
    . exact fun s hs => List.getElem?_append_left (h.bound s hs)
  | some r =>
    obtain ⟨hnot, hlt⟩ := h.cached r hcached
    refine ⟨_, _, rfl, ⟨rfl, rfl, rfl, rfl, rfl, rfl, rfl⟩, rfl, rfl, ?_, hnot, ?_, ?_⟩
    . exact Nat.le_of_eq length_set.symm
    . exact List.getElem?_set_self hlt
    intro s hs
    apply List.getElem?_set_ne
    rintro rfl
    exact hnot hs

theorem enqueue_spec (h : WellFormed m) (completionKind : CompletionKind) (completionValue : Value α) (promise : Nat)
    : ∃ r m', createRequest m completionKind completionValue promise = (r, m')
      ∧ WellFormed (enqueueRequest m' r) ∧ SameOutside m (enqueueRequest m' r)
      ∧ queued (enqueueRequest m' r) = queued m ++ [⟨completionKind, completionValue, some promise⟩] := by
  obtain ⟨r, m', hcreate, hsame, hids, hcached, hlength, hnot, hrequest, hothers⟩ :=
    createRequest_spec h completionKind completionValue promise
  obtain ⟨hsame', hrequests, hcached'⟩ := enqueueRequest_sameOutside m' r
  have hr : r < m'.requests.length := (List.getElem?_eq_some_iff.mp hrequest).1
  have hids' : queueIds (enqueueRequest m' r) = queueIds m ++ [r] := by rw [queueIds_enqueueRequest, hids]
  refine ⟨r, m', hcreate, ⟨?_, ?_, ?_⟩, ?_, ?_⟩
  . rw [hids']
    exact nodup_append.mpr ⟨h.nodup, nodup_singleton r, fun s hs t ht heq =>
      hnot (mem_singleton.mp ht ▸ heq ▸ hs)⟩
  . rw [hids', hrequests]
    intro s hs
    rcases mem_append.mp hs with hs | hs
    . exact Nat.lt_of_lt_of_le (h.bound s hs) hlength
    . rwa [mem_singleton.mp hs]
  . rw [hcached', hcached]
    exact nofun
  . exact ⟨hsame'.state.trans hsame.state, hsame'.resumeIndex.trans hsame.resumeIndex,
      hsame'.promises.trans hsame.promises, hsame'.reactions.trans hsame.reactions, hsame'.pending.trans hsame.pending,
      hsame'.stack.trans hsame.stack, hsame'.events.trans hsame.events⟩
  . rw [queued, hids', hrequests, filterMap_append, filterMap_congr hothers, filterMap_cons, hrequest]
    rfl

theorem dequeueRequest_spec (h : queueIds m = r :: ids)
    : ∃ m', dequeueRequest m = some (r, m') ∧ SameOutside m m' ∧ m'.requests = m.requests
      ∧ m'.generator.cachedRequest = m.generator.cachedRequest ∧ queueIds m' = ids := by
  unfold dequeueRequest
  unfold queueIds at h
  cases hqueue : m.generator.queueOrRequest with
  | null =>
    rw [hqueue] at h
    exact absurd h (cons_ne_nil _ _).symm
  | request s =>
    rw [hqueue] at h
    obtain ⟨rfl, hids⟩ := cons_eq_cons.mp h
    exact ⟨_, rfl, ⟨rfl, rfl, rfl, rfl, rfl, rfl, rfl⟩, rfl, rfl, hids⟩
  | list queue =>
    rw [hqueue] at h
    obtain rfl := h
    exact ⟨_, rfl, ⟨rfl, rfl, rfl, rfl, rfl, rfl, rfl⟩, rfl, rfl, rfl⟩

theorem takePromise_spec (h : WellFormed m)
    (hqueued : queued m = request :: rest) {promise : Nat} (hpromise : request.promise = some promise)
    : ∃ m', takePromise m = some (promise, m') ∧ WellFormed m' ∧ SameOutside m m' ∧ queued m' = rest := by
  have hmap := h.queued_eq
  cases hids : queueIds m with
  | nil =>
    rw [hids, hqueued] at hmap
    exact absurd hmap (cons_ne_nil _ _)
  | cons r ids =>
    rw [hids, hqueued, map_cons, map_cons, cons_eq_cons] at hmap
    obtain ⟨m1, hdequeue, hsame, hrequests, hcached, hids1⟩ := dequeueRequest_spec hids
    have hnodup := h.nodup
    rw [hids, nodup_cons] at hnodup
    have hbound := h.bound
    rw [hids] at hbound
    have hrest : ids.filterMap (m.requests[·]?) = rest := by
      have heq : queued m = [request] ++ ids.filterMap (m.requests[·]?) := by
        rw [queued, hids, filterMap_cons, ← hmap.1]
        rfl
      rw [hqueued] at heq
      exact (cons_eq_cons.mp heq).2.symm
    have htake : takePromise m = some (promise, cacheRequest m1 r) := by
      rw [takePromise, isQueueEmpty_eq, hids, hdequeue]
      change (m1.requests[r]? >>= fun request =>
        request.promise >>= fun promise => pure (promise, cacheRequest m1 r)) = _
      rw [hrequests, ← hmap.1]
      change (request.promise >>= fun promise => pure (promise, cacheRequest m1 r)) = _
      rw [hpromise]
      rfl
    refine ⟨cacheRequest m1 r, htake, ?_⟩
    unfold cacheRequest
    split
    next hsome =>
      refine ⟨⟨?_, ?_, ?_⟩, hsame, ?_⟩
      . rw [hids1]
        exact hnodup.2
      . rw [hids1, hrequests]
        exact fun s hs => hbound s (mem_cons_of_mem r hs)
      . rw [hids1, hrequests, hcached]
        intro s hs
        obtain ⟨hnot, hlt⟩ := h.cached s hs
        rw [hids] at hnot
        exact ⟨fun hmem => hnot (mem_cons_of_mem r hmem), hlt⟩
      . rw [queued, hids1, hrequests, hrest]
    next =>
      have hothers : ∀ s ∈ ids, (m1.requests.modify r clearData)[s]? = m.requests[s]? := by
        intro s hs
        have hne : r ≠ s := by
          rintro rfl
          exact hnodup.1 hs
        rw [hrequests, List.getElem?_modify_ne clearData m.requests hne]
      have hsame' : SameOutside m { m1 with
          requests := m1.requests.modify r clearData
          generator := { m1.generator with cachedRequest := some r } } :=
        ⟨hsame.state, hsame.resumeIndex, hsame.promises, hsame.reactions, hsame.pending, hsame.stack, hsame.events⟩
      refine ⟨⟨?_, ?_, ?_⟩, hsame', ?_⟩
      . change (queueIds m1).Nodup
        rw [hids1]
        exact hnodup.2
      . change ∀ s ∈ queueIds m1, s < (m1.requests.modify r clearData).length
        rw [hids1, length_modify, hrequests]
        exact fun s hs => hbound s (mem_cons_of_mem r hs)
      . rintro _ ⟨⟩
        change r ∉ queueIds m1 ∧ r < (m1.requests.modify r clearData).length
        rw [hids1, length_modify, hrequests]
        exact ⟨hnodup.1, hbound r mem_cons_self⟩
      . change (queueIds m1).filterMap ((m1.requests.modify r clearData)[·]?) = rest
        rw [hids1, filterMap_congr hothers, hrest]

end

section

def answered (events : List (Event α)) : List Nat :=
  events.filterMap fun event => match event with
    | .resolved promise _ _ => some promise
    | .rejected promise _ => some promise
    | .resumed .. => none

def beingResolved (stack : List (Frame α)) : List Nat :=
  stack.reverse.filterMap fun frame => match frame with
    | .resolvePromise promise _ _ => some promise
    | _ => none

-- At its start and at a yield, the body is resumed for the first request, whose completion it gets; if that is a
-- return, the value is awaited before. At an await, the body is resumed when the reaction of this await is done.
def ResumedProperly : Event α → Prop
  | .resumed .initialYield completionKind argument .resumeNext head =>
    ∃ request, head = some request ∧ request.completionKind = completionKind ∧ request.completionValue = argument
  | .resumed .yield completionKind argument .resumeNext head =>
    ∃ request, head = some request ∧ request.completionKind = completionKind ∧ request.completionValue = argument
  | .resumed .yield completionKind _ (.reaction .AsyncGeneratorYieldReturnAwaited _) head =>
    completionKind ≠ .Normal ∧ ∃ request, head = some request ∧ request.completionKind = .Return
  | .resumed (.await n) completionKind _ (.reaction .AsyncGeneratorAwaited reaction) _ =>
    completionKind ≠ .Return ∧ n = reaction
  | .resumed .. => False
  | _ => True

structure Base (m : Machine α) : Prop where
  wellFormed : WellFormed m
  promises : (answered m.events ++ beingResolved m.stack).map some ++ (queued m).map (·.promise)
    = (List.range m.promises).map some
  resumed : ∀ event ∈ m.events, ResumedProperly event

def Rests (m : Machine α) : Prop :=
  m.generator.state = .SuspendedStart ∧ m.generator.resumeIndex = .initialYield
    ∨ m.generator.state = .SuspendedYield ∧ m.generator.resumeIndex = .yield
    ∨ m.generator.state = .Completed

def Awaits (m : Machine α) (reaction : Nat) : PromiseHandlers → Prop
  | .AsyncGeneratorAwaited => m.generator.state = .Executing ∧ m.generator.resumeIndex = .await reaction
  | .AsyncGeneratorYieldReturnAwaited => m.generator.state = .AwaitingYieldReturn ∧ m.generator.resumeIndex = .yield
    ∧ ∃ request, (queued m).head? = some request ∧ request.completionKind = .Return
  | .AsyncGeneratorResumeNextReturn => m.generator.state = .AwaitingReturn

inductive Phase (m : Machine α) : Prop where
  | idle (hstack : m.stack = []) (hpending : m.pending = []) (hqueued : queued m = []) (hrests : Rests m)
  | resolving (promise : Nat) (value : Value α) (done : Bool) (hstack : m.stack = [.resolvePromise promise value done])
      (hpending : m.pending = []) (hrests : Rests m)
  | running (hstack : m.stack = [.body]) (hpending : m.pending = []) (hqueued : queued m ≠ [])
      (hstate : m.generator.state = .Executing)
  | lookingUp {handlers : PromiseHandlers} {reaction : Nat} {below : List (Frame α)}
      (hstack : m.stack = .internalAwait handlers reaction :: below) (hpending : m.pending = [])
      (hqueued : queued m ≠ []) (hawaits : Awaits m reaction handlers)
      (hbelow : below = [] ∨ handlers = .AsyncGeneratorResumeNextReturn ∧ ∃ promise value done,
        below = [.resolvePromise promise value done])
  | awaiting {handlers : PromiseHandlers} {reaction : Nat} (hpending : m.pending = [(reaction, handlers)])
      (hqueued : queued m ≠ []) (hawaits : Awaits m reaction handlers)
      (hstack : m.stack = [] ∨ handlers = .AsyncGeneratorResumeNextReturn ∧ ∃ promise value done,
        m.stack = [.resolvePromise promise value done])

variable {m m' : Machine α}

theorem Base.congr (h : Base m) (hqueue : m'.generator.queueOrRequest = m.generator.queueOrRequest)
    (hrequests : m'.requests = m.requests) (hcached : m'.generator.cachedRequest = m.generator.cachedRequest)
    (hpromises : m'.promises = m.promises) (hevents : m'.events = m.events)
    (hstack : beingResolved m'.stack = beingResolved m.stack) : Base m' := by
  have hids : queueIds m' = queueIds m := by rw [queueIds, queueIds, hqueue]
  have hqueued : queued m' = queued m := by rw [queued, queued, hids, hrequests]
  refine ⟨⟨?_, ?_, ?_⟩, ?_, ?_⟩
  . exact hids ▸ h.wellFormed.nodup
  . rw [hids, hrequests]
    exact h.wellFormed.bound
  . rw [hids, hrequests, hcached]
    exact h.wellFormed.cached
  . rw [hqueued, hpromises, hevents, hstack]
    exact h.promises
  . exact hevents ▸ h.resumed

theorem WellFormed.peekRequest_cons (h : WellFormed m) (hqueued : queued m = request :: rest)
    : peekRequest m = some request ∧ isQueueEmpty m = false := by
  constructor
  . rw [h.peekRequest_head, hqueued]
    rfl
  apply Bool.eq_false_iff.mpr
  rw [ne_eq, h.isQueueEmpty_iff, hqueued]
  exact cons_ne_nil _ _

theorem takeRequest_of_awaitingReturn (h : m.generator.state = .AwaitingReturn) : takeRequest m = some (.return m) := by
  simp [takeRequest, h, guard]

theorem resumeNextFromStep3_of_awaitingReturn (h : m.generator.state = .AwaitingReturn)
    : resumeNextFromStep3 m = some m := by
  rw [resumeNextFromStep3, resumeNextLoop, takeRequest_of_awaitingReturn h]
  rfl

theorem Rests.ne (h : Rests m) : m.generator.state ≠ .Executing ∧ m.generator.state ≠ .AwaitingYieldReturn := by
  rcases h with ⟨heq, _⟩ | ⟨heq, _⟩ | heq <;> rw [heq] <;> exact ⟨nofun, nofun⟩

theorem takeRequest_of_empty (h : isQueueEmpty m) (hexecuting : m.generator.state ≠ .Executing)
    (hawaiting : m.generator.state ≠ .AwaitingYieldReturn) : takeRequest m = some (.return m) := by
  simp [takeRequest, h, hexecuting, hawaiting, guard]

theorem takeRequest_completed (hpeek : peekRequest m = some request) (hempty : isQueueEmpty m = false)
    (hstate : m.generator.state = .Completed ∨ m.generator.state = .SuspendedStart ∧ request.completionKind ≠ .Normal)
    : takeRequest m = some (match request.completionKind with
        | .Return => .return (InternalAwait (setState m .AwaitingReturn) .AsyncGeneratorResumeNextReturn)
        | .Throw => .continue (.Reject request.completionValue) (setState m .Completed)
        | .Normal => .continue (.Resolve .undefined true) (setState m .Completed)) := by
  have hself (h : m.generator.state = .Completed) : setState m .Completed = m := by rw [setState, ← h]
  rcases hstate with hstate | ⟨hstate, hkind⟩
  . rw [hself hstate]
    cases hkind : request.completionKind <;> simp [takeRequest, hpeek, hempty, hstate, hkind, guard]
  cases hkind' : request.completionKind
  . exact absurd hkind' hkind
  all_goals simp [takeRequest, hpeek, hempty, hstate, hkind', guard, setState]

theorem takeRequest_suspended (hpeek : peekRequest m = some request) (hempty : isQueueEmpty m = false)
    (hstate : m.generator.state = .SuspendedYield
      ∨ m.generator.state = .SuspendedStart ∧ request.completionKind = .Normal)
    : takeRequest m = if request.completionKind = .Return then
          some (.return (InternalAwait (setState m .AwaitingYieldReturn) .AsyncGeneratorYieldReturnAwaited))
        else
          (AsyncGeneratorResume (setState m .Executing) request.completionKind request.completionValue .resumeNext).bind
            fun m => some (.return m) := by
  rcases hstate with hstate | ⟨hstate, hkind⟩
  . simp [takeRequest, hpeek, hempty, hstate, guard]
  . simp [takeRequest, hpeek, hempty, hstate, hkind, guard]

theorem AsyncGeneratorResume_ok (hbase : Base m) (hstack : m.stack = []) (hpending : m.pending = [])
    (hqueued : queued m ≠ []) (hstate : m.generator.state = .Executing)
    (hsuspended : isSuspended m.generator.resumeIndex) {completionKind : CompletionKind} {caller : Caller}
    (hproperly : ResumedProperly (.resumed m.generator.resumeIndex completionKind argument caller (peekRequest m)))
    : ∃ m', AsyncGeneratorResume m completionKind argument caller = some m' ∧ Base m' ∧ Phase m' := by
  have hclosed : m.generator.resumeIndex ≠ .closed := by
    intro heq
    rw [heq] at hsuspended
    exact Bool.false_ne_true hsuspended
  obtain ⟨m', hm'⟩ : ∃ m', m' = { setResumeIndex
      (log m (.resumed m.generator.resumeIndex completionKind argument caller (peekRequest m))) .running with
      stack := .body :: m.stack } := ⟨_, rfl⟩
  have hresume : AsyncGeneratorResume m completionKind argument caller = some m' := by
    rw [hm']
    simp [AsyncGeneratorResume, hclosed, hsuspended, hstate, guard]
    rfl
  refine ⟨m', hresume, ?_, ?_⟩
  . have hanswered : answered m'.events = answered m.events := by
      rw [hm']
      exact (filterMap_append ..).trans (append_nil _)
    have hresolving : beingResolved m'.stack = beingResolved m.stack := by
      rw [hm', hstack]
      rfl
    have hothers : WellFormed m' := by
      obtain ⟨hnodup, hbound, hcached⟩ := hbase.wellFormed
      rw [hm']
      exact ⟨hnodup, hbound, hcached⟩
    refine ⟨hothers, ?_, ?_⟩
    . rw [hanswered, hresolving, hm']
      exact hbase.promises
    rw [hm']
    intro event hevent
    rcases mem_append.mp hevent with hevent | hevent
    . exact hbase.resumed event hevent
    . rw [mem_singleton.mp hevent]
      exact hproperly
  . rw [hm']
    exact .running (by rw [hstack]) hpending hqueued hstate

theorem InternalAwait_ok (handlers : PromiseHandlers) (hbase : Base m) {below : List (Frame α)}
    (hstack : m.stack = below) (hpending : m.pending = [])
    (hqueued : queued m ≠ []) (hawaits : Awaits m m.reactions handlers)
    (hbelow : below = [] ∨ handlers = .AsyncGeneratorResumeNextReturn ∧ ∃ promise value done,
      below = [.resolvePromise promise value done])
    : Base (InternalAwait m handlers) ∧ Phase (InternalAwait m handlers) := by
  have hresolving : beingResolved (InternalAwait m handlers).stack = beingResolved m.stack := by
    unfold beingResolved InternalAwait
    rw [reverse_cons, filterMap_append]
    exact append_nil _
  refine ⟨hbase.congr rfl rfl rfl rfl rfl hresolving, ?_⟩
  rw [← hstack] at hbelow
  refine .lookingUp rfl hpending hqueued ?_ hbelow
  cases handlers <;> exact hawaits

theorem head_promise (hbase : Base m)
    (hqueued : queued m = request :: rest) : ∃ promise, request.promise = some promise := by
  have hmem : request.promise ∈ (List.range m.promises).map some := by
    rw [← hbase.promises, hqueued]
    exact mem_append_right _ mem_cons_self
  obtain ⟨promise, _, heq⟩ := mem_map.mp hmem
  exact ⟨promise, heq.symm⟩

theorem answered_append (events events' : List (Event α))
    : answered (events ++ events') = answered events ++ answered events' :=
  filterMap_append ..

theorem answer_reject (hbase : Base m) (hstack : m.stack = [])
    (hqueued : queued m = request :: rest) (exception : Value α)
    : ∃ m', answer m (.Reject exception) = some (.continue .Enqueue m') ∧ Base m' ∧ queued m' = rest
      ∧ m'.generator.state = m.generator.state ∧ m'.generator.resumeIndex = m.generator.resumeIndex
      ∧ m'.stack = m.stack ∧ m'.pending = m.pending := by
  obtain ⟨promise, hpromise⟩ := head_promise hbase hqueued
  obtain ⟨m1, htake, hwf, hsame, hrest⟩ := takePromise_spec hbase.wellFormed hqueued hpromise
  have hpromises := hbase.promises
  rw [hstack, hqueued] at hpromises
  refine ⟨log m1 (.rejected promise exception), ?_, ⟨⟨hwf.nodup, hwf.bound, hwf.cached⟩, ?_, ?_⟩, hrest, hsame.state,
    hsame.resumeIndex, hsame.stack, hsame.pending⟩
  . rw [answer, htake]
    rfl
  . change (answered (m1.events ++ [.rejected promise exception]) ++ beingResolved m1.stack).map some ++ (queued m1).map
      (·.promise) = (List.range m1.promises).map some
    rw [hsame.promises, hsame.stack, hsame.events, hstack, hrest, ← hpromises, answered_append, map_cons, hpromise]
    simp [answered, beingResolved]
  change ∀ event ∈ m1.events ++ [.rejected promise exception], ResumedProperly event
  rw [hsame.events]
  intro event hevent
  rcases mem_append.mp hevent with hevent | hevent
  . exact hbase.resumed event hevent
  . rw [mem_singleton.mp hevent]
    trivial

theorem answer_resolve (hbase : Base m) (hstack : m.stack = []) (hpending : m.pending = []) (hrests : Rests m)
    (hqueued : queued m = request :: rest) (value : Value α) (done : Bool)
    : ∃ m', answer m (.Resolve value done) = some (.return m') ∧ Base m' ∧ Phase m' := by
  obtain ⟨promise, hpromise⟩ := head_promise hbase hqueued
  obtain ⟨m1, htake, hwf, hsame, hrest⟩ := takePromise_spec hbase.wellFormed hqueued hpromise
  have hpromises := hbase.promises
  rw [hstack, hqueued] at hpromises
  refine ⟨{ m1 with stack := .resolvePromise promise value done :: m1.stack }, ?_, ⟨⟨hwf.nodup, hwf.bound, hwf.cached⟩,
    ?_, ?_⟩, .resolving promise value done ?_ ?_ ?_⟩
  . rw [answer, htake]
    rfl
  . change (answered m1.events ++ beingResolved (.resolvePromise promise value done :: m1.stack)).map some
      ++ (queued m1).map (·.promise) = (List.range m1.promises).map some
    rw [hsame.promises, hsame.stack, hsame.events, hstack, hrest, ← hpromises, map_cons, hpromise]
    simp [beingResolved]
  . exact hsame.events ▸ hbase.resumed
  . change _ :: m1.stack = _
    rw [hsame.stack, hstack]
  . exact hsame.pending.trans hpending
  . unfold Rests
    rw [hsame.state, hsame.resumeIndex]
    exact hrests

theorem resumeNextLoop_ok (passes : Nat) (hbase : Base m) (hstack : m.stack = []) (hpending : m.pending = [])
    (hrests : Rests m) (hpasses : (queued m).length < passes)
    : ∃ m', resumeNextLoop passes m = some m' ∧ Base m' ∧ Phase m' := by
  induction passes generalizing m with
  | zero => exact absurd hpasses (Nat.not_lt_zero _)
  | succ passes ih =>
    rw [resumeNextLoop]
    cases hqueued : queued m with
    | nil =>
      rw [takeRequest_of_empty (hbase.wellFormed.isQueueEmpty_iff.mpr hqueued) hrests.ne.1 hrests.ne.2]
      exact ⟨m, rfl, hbase, .idle hstack hpending hqueued hrests⟩
    | cons request rest =>
      obtain ⟨hpeek, hempty⟩ := hbase.wellFormed.peekRequest_cons hqueued
      have hne : queued m ≠ [] := by
        rw [hqueued]
        exact cons_ne_nil _ _
      by_cases hcompleted : m.generator.state = .Completed
        ∨ m.generator.state = .SuspendedStart ∧ request.completionKind ≠ .Normal
      . rw [takeRequest_completed hpeek hempty hcompleted]
        have hbase' : Base (setState m .Completed) := hbase.congr rfl rfl rfl rfl rfl rfl
        cases hkind : request.completionKind
        case Normal =>
          obtain ⟨m', hanswer, hbase', hphase⟩ :=
            answer_resolve hbase' hstack hpending (.inr (.inr rfl)) hqueued .undefined true
          refine ⟨m', ?_, hbase', hphase⟩
          change (answer (setState m .Completed) (.Resolve .undefined true) >>= _) = _
          rw [hanswer]
          rfl
        case Throw =>
          obtain ⟨m1, hanswer, hbase1, hrest, hstate1, _, hstack1, hpending1⟩ :=
            answer_reject hbase' hstack hqueued request.completionValue
          obtain ⟨m', hloop, hbase', hphase⟩ :=
            ih hbase1 (hstack1.trans hstack) (hpending1.trans hpending) (.inr (.inr hstate1)) (by
              rw [hrest]
              rw [hqueued, length_cons] at hpasses
              omega)
          refine ⟨m', ?_, hbase', hphase⟩
          change (answer (setState m .Completed) (.Reject request.completionValue) >>= _) = _
          rw [hanswer]
          exact hloop
        case Return =>
          have hbase' : Base (setState m .AwaitingReturn) := hbase.congr rfl rfl rfl rfl rfl rfl
          obtain ⟨hbase', hphase⟩ :=
            InternalAwait_ok .AsyncGeneratorResumeNextReturn hbase' hstack hpending hne rfl (.inl rfl)
          exact ⟨_, rfl, hbase', hphase⟩
      have hsuspended : m.generator.state = .SuspendedYield ∧ m.generator.resumeIndex = .yield
          ∨ (m.generator.state = .SuspendedStart ∧ request.completionKind = .Normal)
            ∧ m.generator.resumeIndex = .initialYield := by
        rw [not_or, not_and, not_not] at hcompleted
        rcases hrests with ⟨hstate, hindex⟩ | hyield | hstate
        . exact .inr ⟨⟨hstate, hcompleted.2 hstate⟩, hindex⟩
        . exact .inl hyield
        . exact absurd hstate hcompleted.1
      rw [takeRequest_suspended hpeek hempty (hsuspended.imp And.left And.left)]
      by_cases hkind : request.completionKind = .Return
      . have hindex : m.generator.resumeIndex = .yield := by
          rcases hsuspended with ⟨_, hindex⟩ | ⟨⟨_, hnormal⟩, _⟩
          . exact hindex
          . rw [hkind] at hnormal
            exact nomatch hnormal
        have hbase' : Base (setState m .AwaitingYieldReturn) := hbase.congr rfl rfl rfl rfl rfl rfl
        have hhead : (queued m).head? = some request := by
          rw [hqueued]
          rfl
        obtain ⟨hbase', hphase⟩ := InternalAwait_ok .AsyncGeneratorYieldReturnAwaited hbase' hstack hpending hne
          ⟨rfl, hindex, request, hhead, hkind⟩ (.inl rfl)
        rw [if_pos hkind]
        exact ⟨_, rfl, hbase', hphase⟩
      have hbase' : Base (setState m .Executing) := hbase.congr rfl rfl rfl rfl rfl rfl
      have hindex : isSuspended (setState m .Executing).generator.resumeIndex := by
        rcases hsuspended with ⟨_, hindex⟩ | ⟨_, hindex⟩ <;> exact hindex ▸ rfl
      have hproperly : ResumedProperly (.resumed m.generator.resumeIndex request.completionKind request.completionValue
          .resumeNext (peekRequest m)) := by
        rw [hpeek]
        rcases hsuspended with ⟨_, hindex⟩ | ⟨_, hindex⟩
        . rw [hindex]
          exact ⟨request, rfl, rfl, rfl⟩
        . rw [hindex]
          exact ⟨request, rfl, rfl, rfl⟩
      obtain ⟨m', hresume, hbase', hphase⟩ :=
        AsyncGeneratorResume_ok hbase' hstack hpending hne rfl hindex hproperly
      refine ⟨m', ?_, hbase', hphase⟩
      rw [if_neg hkind, hresume]
      rfl

theorem resumeNextFromStep3_ok (hbase : Base m) (hstack : m.stack = []) (hpending : m.pending = []) (hrests : Rests m)
    : ∃ m', resumeNextFromStep3 m = some m' ∧ Base m' ∧ Phase m' := by
  apply resumeNextLoop_ok _ hbase hstack hpending hrests
  rw [queueLength_eq, hbase.wellFormed.length_queued]
  exact Nat.lt_succ_self _

theorem AsyncGeneratorResumeNext_ok (hbase : Base m) (hstack : m.stack = []) (hpending : m.pending = [])
    (hrests : Rests m) (hqueued : queued m ≠ []) (kind : ResumeNextKind α)
    : ∃ m', AsyncGeneratorResumeNext m kind = some m' ∧ Base m' ∧ Phase m' := by
  obtain ⟨request, rest, hcons⟩ := exists_cons_of_ne_nil hqueued
  rw [AsyncGeneratorResumeNext]
  cases kind with
  | Enqueue => exact resumeNextFromStep3_ok hbase hstack hpending hrests
  | Reject exception =>
    obtain ⟨m1, hanswer, hbase1, _, hstate1, hindex1, hstack1, hpending1⟩ := answer_reject hbase hstack hcons exception
    rw [hanswer]
    apply resumeNextFromStep3_ok hbase1 (hstack1.trans hstack) (hpending1.trans hpending)
    unfold Rests
    rw [hstate1, hindex1]
    exact hrests
  | Resolve value done =>
    obtain ⟨m', hanswer, hbase', hphase⟩ := answer_resolve hbase hstack hpending hrests hcons value done
    rw [hanswer]
    exact ⟨m', rfl, hbase', hphase⟩

end

section

def harmless (m : Machine α) : Action α → Bool
  | .enqueue completionKind _ => match m.stack with
    | .resolvePromise .. :: _ => m.generator.state = .AwaitingReturn
      || m.generator.state = .Completed && (peekRequest m).elim completionKind (·.completionKind) = .Return
    | _ => true
  | .lookedUp (some _) => match m.stack with
    | .internalAwait .. :: _ => false
    | _ => true
  | _ => true

variable {m : Machine α}

theorem resolved_or_rejected_ok (hbase : Base m) {promise : Nat} {value : Value α} {done : Bool}
    (hstack : m.stack = [.resolvePromise promise value done]) (hevent : answered [event] = [promise])
    (hproperly : ResumedProperly event) : Base (log { m with stack := m.stack.tail } event) := by
  refine ⟨⟨hbase.wellFormed.nodup, hbase.wellFormed.bound, hbase.wellFormed.cached⟩, ?_, ?_⟩
  . have hpromises := hbase.promises
    change (answered (m.events ++ [event]) ++ beingResolved m.stack.tail).map some ++ (queued m).map (·.promise)
      = (List.range m.promises).map some
    rw [hstack] at hpromises ⊢
    rw [answered_append, hevent, ← hpromises]
    simp [beingResolved]
  intro event' hmem
  rcases mem_append.mp hmem with hmem | hmem
  . exact hbase.resumed event' hmem
  . rw [mem_singleton.mp hmem]
    exact hproperly

theorem finishLookup_resolvePromise_ok (hbase : Base m) (hphase : Phase m) {promise : Nat} {value : Value α}
    {done : Bool}
    (hstack : m.stack = [.resolvePromise promise value done]) (event : Event α) (hevent : answered [event] = [promise])
    (hproperly : ResumedProperly event)
    : ∃ m', resumeNextFromStep3 (log { m with stack := m.stack.tail } event) = some m' ∧ Base m' ∧ Phase m' := by
  have hbase' := resolved_or_rejected_ok hbase hstack hevent hproperly
  have htail : m.stack.tail = [] := by
    rw [hstack]
    rfl
  cases hphase with
  | idle hempty => rw [hempty] at hstack; exact nomatch hstack
  | running hbody => rw [hbody] at hstack; exact nomatch hstack
  | lookingUp hlookingUp => rw [hlookingUp] at hstack; exact nomatch hstack
  | resolving _ _ _ _ hpending hrests => exact resumeNextFromStep3_ok hbase' htail hpending hrests
  | awaiting hpending hqueued hawaits hwhere =>
    rcases hwhere with hempty | ⟨rfl, _⟩
    . rw [hempty] at hstack
      exact nomatch hstack
    . exact ⟨_, resumeNextFromStep3_of_awaitingReturn hawaits, hbase', .awaiting hpending hqueued hawaits (.inl htail)⟩

theorem step_lookedUp_ok (hbase : Base m) (hphase : Phase m) {exception : Option (Value α)}
    (hhappens : canHappen m (.lookedUp exception)) (hharmless : harmless m (.lookedUp exception))
    : ∃ m', step m (.lookedUp exception) = some m' ∧ Base m' ∧ Phase m' := by
  have hresolving {promise : Nat} {value : Value α} {done : Bool}
      (hstack : m.stack = [.resolvePromise promise value done])
      : ∃ m', step m (.lookedUp exception) = some m' ∧ Base m' ∧ Phase m' := by
    have hhead : m.stack.head? = some (.resolvePromise promise value done) := by rw [hstack]; rfl
    rw [step, hhead]
    cases exception with
    | none => exact finishLookup_resolvePromise_ok hbase hphase hstack (.resolved promise value done) rfl trivial
    | some exception =>
      exact finishLookup_resolvePromise_ok hbase hphase hstack (.rejected promise exception) rfl trivial
  cases hphase with
  | idle hstack =>
    rw [canHappen, looksUp, hstack] at hhappens
    exact absurd hhappens Bool.false_ne_true
  | running hstack =>
    rw [canHappen, looksUp, hstack] at hhappens
    exact absurd hhappens Bool.false_ne_true
  | resolving _ _ _ hstack => exact hresolving hstack
  | awaiting _ _ _ hwhere =>
    rcases hwhere with hstack | ⟨_, _, _, _, hstack⟩
    . rw [canHappen, looksUp, hstack] at hhappens
      exact absurd hhappens Bool.false_ne_true
    . exact hresolving hstack
  | @lookingUp handlers _ _ hstack hpending hqueued hawaits hbelow =>
    cases exception with
    | some exception =>
      rw [harmless, hstack] at hharmless
      exact absurd hharmless Bool.false_ne_true
    | none =>
      have hresolving : beingResolved m.stack.tail = beingResolved m.stack := by
        unfold beingResolved
        rw [hstack, reverse_cons, filterMap_append]
        exact (append_nil _).symm
      rw [step, hstack]
      refine ⟨_, rfl, hbase.congr rfl rfl rfl rfl rfl (hstack ▸ hresolving), ?_⟩
      exact .awaiting (congrArg _ hpending) hqueued (by cases handlers <;> exact hawaits) hbelow

theorem enqueued_ok (hbase : Base m) (completionKind : CompletionKind) (completionValue : Value α)
    : ∃ m', Base m' ∧ SameOutside { m with promises := m.promises + 1 } m'
      ∧ queued m' = queued m ++ [⟨completionKind, completionValue, some m.promises⟩]
      ∧ AsyncGeneratorEnqueue m completionKind completionValue
        = if m'.generator.state ≠ .Executing ∧ m'.generator.state ≠ .AwaitingYieldReturn then
            AsyncGeneratorResumeNext m' .Enqueue
          else some m' := by
  have hwf : WellFormed { m with promises := m.promises + 1 } :=
    ⟨hbase.wellFormed.nodup, hbase.wellFormed.bound, hbase.wellFormed.cached⟩
  obtain ⟨r, m1, hcreate, hwf', hsame, hqueued⟩ := enqueue_spec hwf completionKind completionValue m.promises
  refine ⟨enqueueRequest m1 r, ⟨hwf', ?_, ?_⟩, hsame, hqueued, ?_⟩
  . rw [hsame.events, hsame.stack, hsame.promises, hqueued]
    change (answered m.events ++ beingResolved m.stack).map some ++ (queued m ++ _).map (·.promise)
      = (List.range (m.promises + 1)).map some
    have hmap (request : AsyncGeneratorRequest α)
        : (queued m ++ [request]).map (·.promise) = (queued m).map (·.promise) ++ [request.promise] := map_append
    rw [hmap, ← append_assoc, hbase.promises, range_succ, map_append]
    rfl
  . rw [hsame.events]
    exact hbase.resumed
  . rw [AsyncGeneratorEnqueue]
    rw [hcreate]

theorem step_enqueue_ok (hbase : Base m) (hphase : Phase m) {completionKind : CompletionKind}
    {completionValue : Value α}
    (hharmless : harmless m (.enqueue completionKind completionValue))
    : ∃ m', step m (.enqueue completionKind completionValue) = some m' ∧ Base m' ∧ Phase m' := by
  obtain ⟨m1, hbase1, hsame, hqueued1, henqueue⟩ := enqueued_ok hbase completionKind completionValue
  have hne : queued m1 ≠ [] := by
    rw [hqueued1]
    exact append_ne_nil_of_right_ne_nil _ (cons_ne_nil _ _)
  have hwaits {reaction : Nat} {handlers : PromiseHandlers} (hqueued : queued m ≠ [])
      (hawaits : Awaits m reaction handlers)
      : (if m1.generator.state ≠ .Executing ∧ m1.generator.state ≠ .AwaitingYieldReturn then
            AsyncGeneratorResumeNext m1 .Enqueue else some m1) = some m1 ∧ Awaits m1 reaction handlers := by
    cases handlers with
    | AsyncGeneratorAwaited =>
      have hexecuting : m1.generator.state = .Executing := hsame.state.trans hawaits.1
      exact ⟨if_neg fun h => h.1 hexecuting, hexecuting, hsame.resumeIndex.trans hawaits.2⟩
    | AsyncGeneratorResumeNextReturn =>
      have hawaiting : m1.generator.state = .AwaitingReturn := hsame.state.trans hawaits
      refine ⟨?_, hawaiting⟩
      rw [hawaiting, if_pos ⟨nofun, nofun⟩]
      exact resumeNextFromStep3_of_awaitingReturn hawaiting
    | AsyncGeneratorYieldReturnAwaited =>
      obtain ⟨hstate, hindex, request, hhead, hkind⟩ := hawaits
      have hawaiting : m1.generator.state = .AwaitingYieldReturn := hsame.state.trans hstate
      refine ⟨if_neg fun h => h.2 hawaiting, hawaiting, hsame.resumeIndex.trans hindex, request, ?_, hkind⟩
      rw [hqueued1, List.head?_append_of_ne_nil _ hqueued]
      exact hhead
  change ∃ m', AsyncGeneratorEnqueue m completionKind completionValue = some m' ∧ Base m' ∧ Phase m'
  rw [henqueue]
  cases hphase with
  | idle hstack hpending hqueued hrests =>
    have hrests1 : Rests m1 := by
      unfold Rests
      rw [hsame.state, hsame.resumeIndex]
      exact hrests
    rw [if_pos hrests1.ne]
    exact resumeNextFromStep3_ok hbase1 (hsame.stack.trans hstack) (hsame.pending.trans hpending) hrests1
  | resolving promise value done hstack hpending hrests =>
    obtain ⟨hstate, hkind⟩ : m.generator.state = .Completed
        ∧ (peekRequest m).elim completionKind (·.completionKind) = .Return := by
      rw [harmless, hstack] at hharmless
      rw [Bool.or_eq_true, Bool.and_eq_true, decide_eq_true_eq, decide_eq_true_eq, decide_eq_true_eq] at hharmless
      refine hharmless.resolve_left fun hstate => ?_
      rcases hrests with ⟨heq, _⟩ | ⟨heq, _⟩ | heq <;> rw [heq] at hstate <;> exact nomatch hstate
    obtain ⟨request, rest, hcons, hreturn⟩ : ∃ request rest, queued m1 = request :: rest
        ∧ request.completionKind = .Return := by
      rw [hbase.wellFormed.peekRequest_head] at hkind
      rw [hqueued1]
      cases hqueued : queued m with
      | nil =>
        rw [hqueued] at hkind
        exact ⟨_, [], rfl, hkind⟩
      | cons request rest =>
        rw [hqueued] at hkind
        exact ⟨request, _, rfl, hkind⟩
    have hcompleted : m1.generator.state = .Completed := hsame.state.trans hstate
    obtain ⟨hpeek, hempty⟩ := hbase1.wellFormed.peekRequest_cons hcons
    have htake := takeRequest_completed hpeek hempty (.inl hcompleted)
    rw [hreturn] at htake
    have hbase' : Base (setState m1 .AwaitingReturn) := hbase1.congr rfl rfl rfl rfl rfl rfl
    obtain ⟨hbase', hphase'⟩ := InternalAwait_ok .AsyncGeneratorResumeNextReturn hbase' (hsame.stack.trans hstack)
      (hsame.pending.trans hpending) hne rfl (.inr ⟨rfl, promise, value, done, rfl⟩)
    refine ⟨_, ?_, hbase', hphase'⟩
    rw [hcompleted, if_pos ⟨nofun, nofun⟩]
    change resumeNextFromStep3 m1 = _
    rw [resumeNextFromStep3, resumeNextLoop, htake]
    rfl
  | running hstack hpending hqueued hstate =>
    have hexecuting : m1.generator.state = .Executing := hsame.state.trans hstate
    rw [if_neg fun h => h.1 hexecuting]
    exact ⟨m1, rfl, hbase1, .running (hsame.stack.trans hstack) (hsame.pending.trans hpending) hne hexecuting⟩
  | lookingUp hstack hpending hqueued hawaits hbelow =>
    obtain ⟨hresume, hawaits1⟩ := hwaits hqueued hawaits
    rw [hresume]
    exact ⟨m1, rfl, hbase1, .lookingUp (hsame.stack.trans hstack) (hsame.pending.trans hpending) hne hawaits1 hbelow⟩
  | awaiting hpending hqueued hawaits hstack =>
    obtain ⟨hresume, hawaits1⟩ := hwaits hqueued hawaits
    rw [hresume]
    exact ⟨m1, rfl, hbase1, .awaiting (hsame.pending.trans hpending) hne hawaits1 (hsame.stack.symm ▸ hstack)⟩

theorem step_body_ok (hbase : Base m) (hphase : Phase m) (hbody : bodyRuns m)
    : (∃ m', step m .await = some m' ∧ Base m' ∧ Phase m')
      ∧ (∀ value, ∃ m', step m (.yield value) = some m' ∧ Base m' ∧ Phase m')
      ∧ (∀ value, ∃ m', step m (.return value) = some m' ∧ Base m' ∧ Phase m')
      ∧ ∀ exception, ∃ m', step m (.throw exception) = some m' ∧ Base m' ∧ Phase m' := by
  have hnot {frames : List (Frame α)} (hstack : m.stack = frames) (hframes : ∀ below, frames ≠ .body :: below)
      : False := by
    unfold bodyRuns at hbody
    split at hbody
    next below heq => exact hframes below (hstack.symm.trans heq)
    next => exact Bool.false_ne_true hbody
  cases hphase with
  | idle hstack => exact (hnot hstack nofun).elim
  | resolving _ _ _ hstack => exact (hnot hstack nofun).elim
  | lookingUp hstack => exact (hnot hstack nofun).elim
  | awaiting _ _ _ hstack =>
    rcases hstack with hstack | ⟨_, _, _, _, hstack⟩
    . exact (hnot hstack nofun).elim
    . exact (hnot hstack nofun).elim
  | running hstack hpending hqueued hstate =>
    have htail : m.stack.tail = [] := by rw [hstack]; rfl
    have hresolving : beingResolved m.stack.tail = beingResolved m.stack := by rw [hstack]; rfl
    have hbase' (state : State) (resumeIndex : ResumeIndex)
        : Base (setState (setResumeIndex { m with stack := m.stack.tail } resumeIndex) state) :=
      hbase.congr rfl rfl rfl rfl rfl hresolving
    refine ⟨?_, fun value => ?_, fun value => ?_, fun exception => ?_⟩
    . have hbase' : Base (setResumeIndex { m with stack := m.stack.tail } (.await m.reactions)) :=
        hbase.congr rfl rfl rfl rfl rfl hresolving
      obtain ⟨hbase', hphase'⟩ :=
        InternalAwait_ok .AsyncGeneratorAwaited hbase' htail hpending hqueued ⟨hstate, rfl⟩ (.inl rfl)
      exact ⟨_, rfl, hbase', hphase'⟩
    . have hrests : Rests (setState (setResumeIndex { m with stack := m.stack.tail } .yield) .SuspendedYield) :=
        .inr (.inl ⟨rfl, rfl⟩)
      exact AsyncGeneratorResumeNext_ok (hbase' .SuspendedYield .yield) htail hpending hrests hqueued _
    . exact AsyncGeneratorResumeNext_ok (hbase' .Completed .closed) htail hpending (.inr (.inr rfl)) hqueued _
    . exact AsyncGeneratorResumeNext_ok (hbase' .Completed .closed) htail hpending (.inr (.inr rfl)) hqueued _

theorem step_settle_ok (hbase : Base m) (hphase : Phase m) {reaction : Nat} {rejected : Bool}
    (hhappens : canHappen m (.settle reaction handlers rejected argument))
    : ∃ m', step m (.settle reaction handlers rejected argument) = some m' ∧ Base m' ∧ Phase m' := by
  obtain ⟨hstack, hmem⟩ : m.stack = [] ∧ (reaction, handlers) ∈ m.pending := by
    rw [canHappen, Bool.and_eq_true, List.isEmpty_iff, decide_eq_true_eq] at hhappens
    exact hhappens
  obtain ⟨hpending, hqueued, hawaits⟩ : m.pending = [(reaction, handlers)] ∧ queued m ≠ []
      ∧ Awaits m reaction handlers := by
    cases hphase with
    | idle _ hpending => rw [hpending] at hmem; exact nomatch hmem
    | resolving _ _ _ hresolving => rw [hresolving] at hstack; exact nomatch hstack
    | running hbody => rw [hbody] at hstack; exact nomatch hstack
    | lookingUp hlookingUp => rw [hlookingUp] at hstack; exact nomatch hstack
    | awaiting hpending hqueued hawaits =>
      rw [hpending, mem_singleton] at hmem
      obtain ⟨rfl, rfl⟩ := Prod.mk.inj hmem
      exact ⟨hpending, hqueued, hawaits⟩
  have herase : m.pending.erase (reaction, handlers) = [] := by
    rw [hpending]
    exact erase_cons_head ..
  have hbase' : Base { m with pending := m.pending.erase (reaction, handlers) } := hbase.congr rfl rfl rfl rfl rfl rfl
  have hbase'' (state : State) : Base (setState { m with pending := m.pending.erase (reaction, handlers) } state) :=
    hbase.congr rfl rfl rfl rfl rfl rfl
  change ∃ m', AsyncGeneratorPromiseReactionJob { m with pending := m.pending.erase (reaction, handlers) } handlers
    reaction rejected argument = some m' ∧ Base m' ∧ Phase m'
  cases handlers with
  | AsyncGeneratorAwaited =>
    obtain ⟨hstate, hindex⟩ := hawaits
    have hproperly : ResumedProperly (.resumed m.generator.resumeIndex (if rejected then .Throw else .Normal) argument
        (.reaction .AsyncGeneratorAwaited reaction) (peekRequest m)) := by
      rw [hindex]
      exact ⟨by split <;> exact nofun, rfl⟩
    unfold AsyncGeneratorPromiseReactionJob
    rw [guard, if_pos hstate]
    exact AsyncGeneratorResume_ok hbase' hstack herase hqueued hstate (hindex ▸ rfl) hproperly
  | AsyncGeneratorResumeNextReturn =>
    unfold AsyncGeneratorPromiseReactionJob
    dsimp only
    have hstate : m.generator.state = .AwaitingReturn := hawaits
    rw [guard, if_pos hstate]
    exact AsyncGeneratorResumeNext_ok (hbase'' .Completed) hstack herase (.inr (.inr rfl)) hqueued _
  | AsyncGeneratorYieldReturnAwaited =>
    obtain ⟨hstate, hindex, request, hhead, hkind⟩ := hawaits
    have hproperly : ResumedProperly (.resumed m.generator.resumeIndex (if rejected then .Throw else .Return) argument
        (.reaction .AsyncGeneratorYieldReturnAwaited reaction) (peekRequest m)) := by
      rw [hindex, hbase.wellFormed.peekRequest_head]
      exact ⟨by split <;> exact nofun, request, hhead, hkind⟩
    unfold AsyncGeneratorPromiseReactionJob
    dsimp only
    rw [guard, if_pos hstate]
    exact AsyncGeneratorResume_ok (hbase'' .Executing) hstack herase hqueued rfl (hindex ▸ rfl) hproperly

theorem step_ok (hbase : Base m) (hphase : Phase m) (hhappens : canHappen m action)
    (hharmless : harmless m action) : ∃ m', step m action = some m' ∧ Base m' ∧ Phase m' := by
  cases action with
  | enqueue => exact step_enqueue_ok hbase hphase hharmless
  | lookedUp => exact step_lookedUp_ok hbase hphase hhappens hharmless
  | await => exact (step_body_ok hbase hphase hhappens).1
  | yield value => exact (step_body_ok hbase hphase hhappens).2.1 value
  | «return» value => exact (step_body_ok hbase hphase hhappens).2.2.1 value
  | throw exception => exact (step_body_ok hbase hphase hhappens).2.2.2 exception
  | settle => exact step_settle_ok hbase hphase hhappens

theorem create_ok : Base (create : Machine α) ∧ Phase (create : Machine α) :=
  ⟨⟨⟨nodup_nil, nofun, nofun⟩, rfl, fun _ h => absurd h not_mem_nil⟩, .idle rfl rfl rfl (.inl ⟨rfl, rfl⟩)⟩

-- The requests are numbered as they are made. They are answered in this order, each of them once, and if no user code
-- runs, only an await that has not been settled leaves some of them unanswered.
structure Exact (m : Machine α) : Prop where
  inOrder : answered m.events = List.range (answered m.events).length
  requested : (answered m.events).length ≤ m.promises
  all : m.stack = [] → m.pending = [] → (answered m.events).length = m.promises
  oneAwait : m.pending.length ≤ 1
  resumedProperly : ∀ event ∈ m.events, ResumedProperly event

theorem exact_of_phase (hbase : Base m) (hphase : Phase m) : Exact m := by
  have hprefix : (answered m.events).map some <+: (List.range m.promises).map some := by
    rw [← hbase.promises, map_append, append_assoc]
    exact prefix_append ..
  have hrange : answered m.events <+: List.range m.promises :=
    (prefix_map_iff_of_injective (Option.some_injective _)).mp hprefix
  have hlength := hrange.length_le
  rw [length_range] at hlength
  refine ⟨?_, hlength, ?_, ?_, hbase.resumed⟩
  . have htake := prefix_iff_eq_take.mp hrange
    rw [take_range, Nat.min_eq_left hlength] at htake
    exact htake
  . intro hstack hpending
    have hpromises := congrArg List.length hbase.promises
    cases hphase with
    | idle _ _ hqueued =>
      rw [hstack, hqueued] at hpromises
      simpa [beingResolved] using hpromises
    | resolving _ _ _ hresolving => rw [hresolving] at hstack; exact nomatch hstack
    | running hbody => rw [hbody] at hstack; exact nomatch hstack
    | lookingUp hlookingUp => rw [hlookingUp] at hstack; exact nomatch hstack
    | awaiting hawaiting => rw [hawaiting] at hpending; exact nomatch hpending
  . cases hphase with
    | idle _ hpending => exact hpending ▸ Nat.zero_le 1
    | resolving _ _ _ _ hpending => exact hpending ▸ Nat.zero_le 1
    | running _ hpending => exact hpending ▸ Nat.zero_le 1
    | lookingUp _ hpending => exact hpending ▸ Nat.zero_le 1
    | awaiting hpending => exact hpending ▸ Nat.le.refl

theorem requestQueue_exact {actions : List (Action α)}
    (h : ∀ done action m, done ++ [action] <+: actions → done.foldlM step create = some m →
      canHappen m action ∧ harmless m action)
    : ∃ m, actions.foldlM step create = some m ∧ Exact m := by
  have hstep (m : Machine α) (action : Action α) (hinv : Base m ∧ Phase m)
      (hmeets : canHappen m action ∧ harmless m action) : ∃ m', step m action = some m' ∧ Base m' ∧ Phase m' :=
    step_ok hinv.1 hinv.2 hmeets.1 hmeets.2
  obtain ⟨m, hrun, hbase, hphase⟩ := Run.exists_foldlM_of_meets hstep create_ok h
  exact ⟨m, hrun, exact_of_phase hbase hphase⟩

-- Three requests. The look-up of `then` for the first one makes none, the second one is a return whose value is
-- awaited, and the third one finds the generator completed.
def returnRun : List (Action Unit) :=
  [.enqueue .Normal .undefined, .await, .lookedUp none, .settle 0 .AsyncGeneratorAwaited false .null,
    .yield (.other ()), .lookedUp none, .enqueue .Return .null, .enqueue .Normal .undefined, .lookedUp none,
    .settle 1 .AsyncGeneratorYieldReturnAwaited false .null, .return .null, .lookedUp none, .lookedUp none]

theorem requestQueue_exact_of_return : ∃ m, returnRun.foldlM step create = some m ∧ Exact m := by
  apply requestQueue_exact
  have hsome : (returnRun.foldlM (Run.guarded step fun m action => canHappen m action ∧ harmless m action)
      create).isSome := by decide
  obtain ⟨m, hm⟩ := Option.isSome_iff_exists.mp hsome
  exact (Run.allowed_of_guarded hm).2

-- A `yield` awaits its value first.
def untilYield : List (Action Unit) :=
  [.enqueue .Normal .undefined, .await, .lookedUp none, .settle 0 .AsyncGeneratorAwaited false .null, .yield .null]

def resumedWithin : List (Action Unit) := untilYield ++ [.enqueue .Normal .undefined, .await, .lookedUp none]

def answeredWithin : List (Action Unit) :=
  untilYield ++ [.enqueue .Normal .undefined, .return .undefined, .lookedUp none, .lookedUp none]

def failedAwait : List (Action Unit) :=
  [.enqueue .Normal .undefined, .await, .lookedUp (some .null)]

def happening (actions : List (Action Unit)) : Option (Machine Unit) :=
  actions.foldlM (Run.guarded step fun m action => canHappen m action) create

theorem requestQueue_not_exact
    : (∃ m, happening resumedWithin = some m ∧ canHappen m (.lookedUp none) ∧ step m (.lookedUp none) = none)
      ∧ (∃ m, happening answeredWithin = some m ∧ answered m.events = [1, 0])
      ∧ ∃ m, happening failedAwait = some m
        ∧ m.stack = [] ∧ m.pending = [] ∧ answered m.events = [] ∧ m.promises = 1 := by
  refine ⟨?_, ?_, ?_⟩
  . have hany : (happening resumedWithin).any fun m =>
        canHappen m (.lookedUp none) ∧ step m (.lookedUp none) = none := by decide
    obtain ⟨m, hm, h⟩ := (Option.any_eq_true ..).mp hany
    exact ⟨m, hm, of_decide_eq_true h⟩
  . have hany : (happening answeredWithin).any fun m => answered m.events = [1, 0] := by decide
    obtain ⟨m, hm, h⟩ := (Option.any_eq_true ..).mp hany
    exact ⟨m, hm, of_decide_eq_true h⟩
  . have hany : (happening failedAwait).any fun m =>
        m.stack = [] ∧ m.pending = [] ∧ answered m.events = [] ∧ m.promises = 1 := by decide
    obtain ⟨m, hm, h⟩ := (Option.any_eq_true ..).mp hany
    exact ⟨m, hm, of_decide_eq_true h⟩

end

end SpiderMonkey.AsyncGenerator
