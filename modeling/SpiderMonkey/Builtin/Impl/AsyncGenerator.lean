import Mathlib.Data.Int.NatAbs

/-!
This module contains async generators: the queue of their requests and how they are resumed. Memory suffices. User code
runs while the body does, and while properties of values are looked up; then it may make requests again.
-/

namespace SpiderMonkey.AsyncGenerator

inductive CompletionKind where
  | Normal
  | Return
  | Throw
deriving DecidableEq

inductive State where
  | SuspendedStart
  | SuspendedYield
  | Executing
  | AwaitingYieldReturn
  | AwaitingReturn
  | Completed
deriving DecidableEq

inductive ResumeIndex where
  | initialYield
  | yield
  | await (reaction : Nat)
  | running
  | closed
deriving DecidableEq

inductive Value (α : Type) where
  | undefined
  | null
  | other (x : α)
deriving DecidableEq

structure AsyncGeneratorRequest (α : Type) where
  completionKind : CompletionKind
  completionValue : Value α
  promise : Option Nat
deriving DecidableEq

inductive QueueOrRequest where
  | null
  | request (r : Nat)
  | list (queue : List Nat)
deriving DecidableEq

structure AsyncGeneratorObject where
  state : State
  queueOrRequest : QueueOrRequest
  cachedRequest : Option Nat
  resumeIndex : ResumeIndex
deriving DecidableEq

inductive PromiseHandlers where
  | AsyncGeneratorAwaited
  | AsyncGeneratorResumeNextReturn
  | AsyncGeneratorYieldReturnAwaited
deriving DecidableEq

inductive Frame (α : Type) where
  | resolvePromise (promise : Nat) (value : Value α) (done : Bool)
  | internalAwait (handlers : PromiseHandlers) (reaction : Nat)
  | body
deriving DecidableEq

inductive Caller where
  | resumeNext
  | reaction (handlers : PromiseHandlers) (n : Nat)
deriving DecidableEq

inductive Event (α : Type) where
  | resolved (promise : Nat) (value : Value α) (done : Bool)
  | rejected (promise : Nat) (exception : Value α)
  | resumed (resumeIndex : ResumeIndex) (completionKind : CompletionKind) (argument : Value α) (caller : Caller)
    (head : Option (AsyncGeneratorRequest α))
deriving DecidableEq

-- The generator, all request objects that there are, the number of promises that have been created for requests and of
-- reactions, the reactions whose promise has not been settled, the frames with the innermost first, and what has
-- happened
structure Machine (α : Type) where
  generator : AsyncGeneratorObject
  requests : List (AsyncGeneratorRequest α)
  promises : Nat
  reactions : Nat
  pending : List (Nat × PromiseHandlers)
  stack : List (Frame α)
  events : List (Event α)
deriving DecidableEq

inductive ResumeNextKind (α : Type) where
  | Enqueue
  | Reject (exception : Value α)
  | Resolve (value : Value α) (done : Bool)

section

variable {α : Type}

def create : Machine α where
  generator :=
    { state := .SuspendedStart, queueOrRequest := .null, cachedRequest := none, resumeIndex := .initialYield }
  requests := []
  promises := 0
  reactions := 0
  pending := []
  stack := []
  events := []

variable (m : Machine α)

def setState (state : State) : Machine α := { m with generator := { m.generator with state := state } }

def setResumeIndex (resumeIndex : ResumeIndex) : Machine α :=
  { m with generator := { m.generator with resumeIndex := resumeIndex } }

def setQueueOrRequest (queueOrRequest : QueueOrRequest) : Machine α :=
  { m with generator := { m.generator with queueOrRequest := queueOrRequest } }

def log (event : Event α) : Machine α := { m with events := m.events ++ [event] }

def isQueueEmpty : Bool :=
  match m.generator.queueOrRequest with
  | .null => true
  | .request _ => false
  | .list queue => queue.isEmpty

def createRequest (completionKind : CompletionKind) (completionValue : Value α) (promise : Nat) : Nat × Machine α :=
  let request := { completionKind := completionKind, completionValue := completionValue, promise := some promise }
  match m.generator.cachedRequest with
  | none => (m.requests.length, { m with requests := m.requests ++ [request] })
  | some r => (r, { m with
      requests := m.requests.set r request
      generator := { m.generator with cachedRequest := none } })

def enqueueRequest (r : Nat) : Machine α :=
  match m.generator.queueOrRequest with
  | .null => setQueueOrRequest m (.request r)
  | .request first => setQueueOrRequest m (.list [first, r])
  | .list queue => setQueueOrRequest m (.list (queue ++ [r]))

def dequeueRequest : Option (Nat × Machine α) :=
  match m.generator.queueOrRequest with
  | .null => none
  | .request r => some (r, setQueueOrRequest m .null)
  | .list [] => none
  | .list (r :: queue) => some (r, setQueueOrRequest m (.list queue))

def peekRequest : Option (AsyncGeneratorRequest α) :=
  match m.generator.queueOrRequest with
  | .null => none
  | .request r => m.requests[r]?
  | .list queue => queue.head?.bind fun r => m.requests[r]?

def clearData (request : AsyncGeneratorRequest α) : AsyncGeneratorRequest α :=
  { request with completionValue := .null, promise := none }

def cacheRequest (r : Nat) : Machine α :=
  if m.generator.cachedRequest.isSome then m
  else { m with
    requests := m.requests.modify r clearData
    generator := { m.generator with cachedRequest := some r } }

def takePromise : Option (Nat × Machine α) := do
  guard !isQueueEmpty m
  let (r, m) ← dequeueRequest m
  let request ← m.requests[r]?
  let resultPromise ← request.promise
  return (resultPromise, cacheRequest m r)

def isSuspended (resumeIndex : ResumeIndex) : Bool :=
  match resumeIndex with
  | .initialYield => true
  | .yield => true
  | .await _ => true
  | _ => false

def AsyncGeneratorResume (completionKind : CompletionKind) (argument : Value α) (caller : Caller)
    : Option (Machine α) := do
  guard (m.generator.resumeIndex ≠ .closed)
  guard (isSuspended m.generator.resumeIndex)
  guard (m.generator.state = .Executing)
  let m := log m (.resumed m.generator.resumeIndex completionKind argument caller (peekRequest m))
  return { setResumeIndex m .running with stack := .body :: m.stack }

def InternalAwait (handlers : PromiseHandlers) : Machine α :=
  { m with reactions := m.reactions + 1, stack := .internalAwait handlers m.reactions :: m.stack }

inductive Pass (α : Type) where
  | return (m : Machine α)
  | continue (kind : ResumeNextKind α) (m : Machine α)

def answer (kind : ResumeNextKind α) : Option (Pass α) :=
  match kind with
  | .Enqueue => some (.continue .Enqueue m)
  | .Reject exception => do
    let (resultPromise, m) ← takePromise m
    return .continue .Enqueue (log m (.rejected resultPromise exception))
  | .Resolve value done => do
    let (resultPromise, m) ← takePromise m
    return .return { m with stack := .resolvePromise resultPromise value done :: m.stack }

def takeRequest : Option (Pass α) := do
  guard (m.generator.state ≠ .Executing)
  guard (m.generator.state ≠ .AwaitingYieldReturn)
  if m.generator.state = .AwaitingReturn then return .return m
  else if isQueueEmpty m then return .return m
  else
    let request ← peekRequest m
    let completionKind := request.completionKind
    let m := if completionKind ≠ .Normal ∧ m.generator.state = .SuspendedStart then setState m .Completed else m
    if m.generator.state = .Completed then
      match completionKind with
      | .Return => return .return (InternalAwait (setState m .AwaitingReturn) .AsyncGeneratorResumeNextReturn)
      | .Throw => return .continue (.Reject request.completionValue) m
      | .Normal => return .continue (.Resolve .undefined true) m
    else
      guard (m.generator.state = .SuspendedStart ∨ m.generator.state = .SuspendedYield)
      let argument := request.completionValue
      if completionKind = .Return then
        return .return (InternalAwait (setState m .AwaitingYieldReturn) .AsyncGeneratorYieldReturnAwaited)
      else
        let m ← AsyncGeneratorResume (setState m .Executing) completionKind argument .resumeNext
        return .return m

def resumeNextLoop : (passes : Nat) → Machine α → Option (Machine α)
  | 0, _ => none
  | passes + 1, m => do
    match ← takeRequest m with
    | .return m => some m
    | .continue kind m =>
      match ← answer m kind with
      | .return m => some m
      | .continue _ m => resumeNextLoop passes m

def queueLength : Nat :=
  match m.generator.queueOrRequest with
  | .null => 0
  | .request _ => 1
  | .list queue => queue.length

def resumeNextFromStep3 : Option (Machine α) := resumeNextLoop (queueLength m + 1) m

def AsyncGeneratorResumeNext (kind : ResumeNextKind α) : Option (Machine α) := do
  match ← answer m kind with
  | .return m => some m
  | .continue _ m => resumeNextFromStep3 m

def AsyncGeneratorEnqueue (completionKind : CompletionKind) (completionValue : Value α) : Option (Machine α) :=
  let resultPromise := m.promises
  let m := { m with promises := m.promises + 1 }
  let (request, m) := createRequest m completionKind completionValue resultPromise
  let m := enqueueRequest m request
  if m.generator.state ≠ .Executing ∧ m.generator.state ≠ .AwaitingYieldReturn then AsyncGeneratorResumeNext m .Enqueue
  else some m

def AsyncGeneratorPromiseReactionJob (handlers : PromiseHandlers) (reaction : Nat) (rejected : Bool)
    (argument : Value α)
    : Option (Machine α) := do
  let caller := .reaction handlers reaction
  match handlers with
  | .AsyncGeneratorAwaited =>
    guard (m.generator.state = .Executing)
    AsyncGeneratorResume m (if rejected then .Throw else .Normal) argument caller
  | .AsyncGeneratorResumeNextReturn =>
    guard (m.generator.state = .AwaitingReturn)
    AsyncGeneratorResumeNext (setState m .Completed) (if rejected then .Reject argument else .Resolve argument true)
  | .AsyncGeneratorYieldReturnAwaited =>
    guard (m.generator.state = .AwaitingYieldReturn)
    AsyncGeneratorResume (setState m .Executing) (if rejected then .Throw else .Return) argument caller

end

-- What happens next. Requests are made by any user code: what runs in the innermost frame or, if there is none, a
-- script or another job.
inductive Action (α : Type) where
  | enqueue (completionKind : CompletionKind) (completionValue : Value α)
  | lookedUp (exception : Option (Value α))
  | await
  | yield (value : Value α)
  | return (value : Value α)
  | throw (exception : Value α)
  | settle (reaction : Nat) (handlers : PromiseHandlers) (rejected : Bool) (argument : Value α)
deriving DecidableEq

section

variable {α : Type}

def bodyRuns (m : Machine α) : Bool :=
  match m.stack with
  | .body :: _ => true
  | _ => false

def looksUp (m : Machine α) : Bool :=
  match m.stack with
  | .resolvePromise .. :: _ => true
  | .internalAwait .. :: _ => true
  | _ => false

def canHappen (m : Machine α) : Action α → Bool
  | .enqueue .. => true
  | .lookedUp _ => looksUp m
  | .await => bodyRuns m
  | .yield _ => bodyRuns m
  | .return _ => bodyRuns m
  | .throw _ => bodyRuns m
  | .settle reaction handlers _ _ => m.stack.isEmpty && (reaction, handlers) ∈ m.pending

-- If the look-up of `then` throws, the promise is rejected. The await fails if the look-up of `constructor` throws; the
-- frame for an await stands for both look-ups, of which the one of `then` does not let it fail.
def finishLookup (m : Machine α) (exception : Option (Value α)) : Frame α → Option (Machine α)
  | .resolvePromise promise value done =>
    match exception with
    | none => resumeNextFromStep3 (log m (.resolved promise value done))
    | some exception => resumeNextFromStep3 (log m (.rejected promise exception))
  | .internalAwait handlers reaction =>
    match exception with
    | none => some { m with pending := (reaction, handlers) :: m.pending }
    | some _ => some m
  | .body => none

def step (m : Machine α) (action : Action α) : Option (Machine α) := do
  match action with
  | .enqueue completionKind completionValue => AsyncGeneratorEnqueue m completionKind completionValue
  | .lookedUp exception => finishLookup { m with stack := m.stack.tail } exception (← m.stack.head?)
  | .await =>
    let m := setResumeIndex { m with stack := m.stack.tail } (.await m.reactions)
    return InternalAwait m .AsyncGeneratorAwaited
  | .yield value =>
    let m := setResumeIndex { m with stack := m.stack.tail } .yield
    AsyncGeneratorResumeNext (setState m .SuspendedYield) (.Resolve value false)
  | .return value =>
    let m := setResumeIndex { m with stack := m.stack.tail } .closed
    AsyncGeneratorResumeNext (setState m .Completed) (.Resolve value true)
  | .throw exception =>
    let m := setResumeIndex { m with stack := m.stack.tail } .closed
    AsyncGeneratorResumeNext (setState m .Completed) (.Reject exception)
  | .settle reaction handlers rejected argument =>
    let m := { m with pending := m.pending.erase (reaction, handlers) }
    AsyncGeneratorPromiseReactionJob m handlers reaction rejected argument

end

end SpiderMonkey.AsyncGenerator
