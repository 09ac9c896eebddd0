import Mathlib.Data.Int.NatAbs

/-!
This module contains the transfer map of structured clones: the writer that steals the contents of
array buffers, the clone buffer that holds them, and the reader that hands them to new objects.
-/

namespace SpiderMonkey

inductive StructuredCloneScope where
  | sameProcess
  | differentProcess
  | differentProcessForIndexedDB
  | unknownDestination
deriving DecidableEq, Repr

inductive OwnTransferablePolicy where
  | ownsTransferablesIfAny
  | ignoreTransferablesIfAny
  | noTransferables
deriving DecidableEq, Repr

inductive TransferableOwnership where
  | unfilled
  | unowned
  | allocData
  | mappedData
  | custom
deriving DecidableEq, Repr

def TransferableOwnership.isOwned : TransferableOwnership → Bool
  | unfilled => false
  | unowned => false
  | allocData => true
  | mappedData => true
  | custom => true

inductive TransferTag where
  | pendingEntry
  | arrayBuffer
  | storedArrayBuffer
  | custom
deriving DecidableEq, Repr

-- A triple of the transfer map without its `extraData`. Contents of array buffers are numbered, and
-- those of other transferables are left out.
structure TransferEntry where
  tag : TransferTag
  ownership : TransferableOwnership
  content : Option Nat
deriving DecidableEq, Repr

inductive TransferMapHeader where
  | unread
  | transferred
deriving DecidableEq, Repr

-- `noOwnedData` is `INLINE_DATA`, `NO_DATA` and `USER_OWNED`.
inductive BufferContents where
  | noOwnedData
  | malloced (contents : Nat)
  | mapped (contents : Nat)
  | wasm
deriving DecidableEq, Repr

def BufferContents.owned : BufferContents → Option Nat
  | noOwnedData => none
  | malloced contents => some contents
  | mapped contents => some contents
  | wasm => none

structure ArrayBufferObject where
  contents : BufferContents
  isDetached : Bool
  isPreparedForAsmJS : Bool
deriving DecidableEq, Repr

def ArrayBufferObject.detach (buffer : ArrayBufferObject) : ArrayBufferObject :=
  { buffer with contents := .noOwnedData, isDetached := true }

inductive Transferable where
  | arrayBuffer (buffer : ArrayBufferObject)
  | custom
deriving DecidableEq, Repr

def Transferable.owned : Transferable → Option Nat
  | arrayBuffer buffer => buffer.contents.owned
  | custom => none

-- Where the control is: `writing` is `JSStructuredCloneWriter::write` up to `transferOwnership`, and
-- `written` the time after which the clone buffer has the data and no reader is at work.
inductive TransferPhase where
  | initial
  | writing
  | transferring (entry : Nat)
  | writeFailed
  | written
  | reading (entry : Nat) (allowedScope : StructuredCloneScope)
  | destroyed
deriving DecidableEq, Repr

-- `sources` are the transferable objects, in the order of their set, and `destination` has the
-- contents of the objects that a reader has created. `released` has the contents that were freed or
-- unmapped, as often as they were, and `allocated` all that there ever were.
structure CloneTransfer where
  phase : TransferPhase
  sources : List Transferable
  scope : StructuredCloneScope
  policy : OwnTransferablePolicy
  header : Option TransferMapHeader
  entries : List TransferEntry
  destination : List Nat
  released : List Nat
  allocated : List Nat
  nextContents : Nat
deriving Repr

-- The errors that the transfer of an entry can meet: of `GetBuiltinClass`, of memory, or of the
-- callback `writeTransfer`.
structure TransferErrors where
  getBuiltinClassFails : Bool
  outOfMemory : Bool
  writeTransferFails : Bool
deriving DecidableEq, Repr

structure ReadErrors where
  truncated : Bool
  createFails : Bool
  readTransferFails : Bool
  appendFails : Bool
deriving DecidableEq, Repr

inductive TransferEvent where
  | writeTransferMap (failsAfter : Option Nat)
  | scriptDetaches (object : Nat)
  | scriptPreparesForAsmJS (object : Nat)
  | sameProcessScopeRequired
  | writingFails
  | writingDone
  | transferEntry (errors : TransferErrors)
  | destroyWriter
  | startRead (allowedScope : StructuredCloneScope)
  | readEntry (errors : ReadErrors)
  | destroyBuffer
deriving Repr

namespace CloneTransfer

def init (sources : List Transferable) (scope : StructuredCloneScope) (allocated : List Nat)
    (nextContents : Nat) : CloneTransfer where
  phase := .initial
  sources := sources
  scope := scope
  policy := .noTransferables
  header := none
  entries := []
  destination := []
  released := []
  allocated := allocated
  nextContents := nextContents

def dataScope (s : CloneTransfer) : StructuredCloneScope :=
  if s.scope = .unknownDestination then .differentProcess else s.scope

def pendingEntry : TransferEntry := ⟨.pendingEntry, .unfilled, none⟩

def writeTransferMap (s : CloneTransfer) (failsAfter : Option Nat) : CloneTransfer :=
  match failsAfter with
  | some written =>
    { s with
      header := some .unread
      entries := List.replicate (min written s.sources.length) pendingEntry
      phase := .writeFailed }
  | none =>
    if s.sources.isEmpty then
      { s with phase := .writing }
    else
      { s with
        header := some .unread
        entries := List.replicate s.sources.length pendingEntry
        phase := .writing }

def release (s : CloneTransfer) (contents : Option Nat) : CloneTransfer :=
  { s with released := contents.toList ++ s.released }

def setSource (s : CloneTransfer) (i : Nat) (buffer : ArrayBufferObject) : CloneTransfer :=
  { s with sources := s.sources.set i (.arrayBuffer buffer) }

def detachSource (s : CloneTransfer) (i : Nat) (buffer : ArrayBufferObject) : CloneTransfer :=
  (s.setSource i buffer.detach).release buffer.contents.owned

def allocate (s : CloneTransfer) : CloneTransfer :=
  { s with allocated := s.nextContents :: s.allocated, nextContents := s.nextContents + 1 }

def writeEntry (s : CloneTransfer) (i : Nat) (entry : TransferEntry) : CloneTransfer :=
  { s with entries := s.entries.set i entry }

def extractContents (s : CloneTransfer) (i : Nat) (buffer : ArrayBufferObject)
    (outOfMemory : Bool) : Option CloneTransfer :=
  match buffer.contents with
  | .noOwnedData =>
    if outOfMemory then none
    else
      some ((s.setSource i buffer.detach).allocate.writeEntry i ⟨.arrayBuffer, .allocData, some s.nextContents⟩)
  | .malloced contents =>
    some ((s.setSource i buffer.detach).writeEntry i ⟨.arrayBuffer, .allocData, some contents⟩)
  | .mapped contents =>
    some ((s.setSource i buffer.detach).writeEntry i ⟨.arrayBuffer, .mappedData, some contents⟩)
  | .wasm => none

def storeContents (s : CloneTransfer) (i : Nat) (buffer : ArrayBufferObject) (outOfMemory : Bool) :
    Option CloneTransfer :=
  if outOfMemory || buffer.contents = .wasm then none
  else some ((s.detachSource i buffer).writeEntry i ⟨.storedArrayBuffer, .unowned, none⟩)

def transferArrayBuffer (s : CloneTransfer) (i : Nat) (buffer : ArrayBufferObject)
    (outOfMemory : Bool) : Option CloneTransfer :=
  if buffer.isDetached || buffer.isPreparedForAsmJS then none
  else if s.dataScope = .differentProcess || s.dataScope = .differentProcessForIndexedDB then
    s.storeContents i buffer outOfMemory
  else
    s.extractContents i buffer outOfMemory

def transferEntry (s : CloneTransfer) (i : Nat) (errors : TransferErrors) : Option CloneTransfer :=
  if errors.getBuiltinClassFails then none
  else
    match s.sources[i]? with
    | some (.arrayBuffer buffer) => s.transferArrayBuffer i buffer errors.outOfMemory
    | some .custom =>
      if errors.writeTransferFails then none
      else some (s.writeEntry i ⟨.custom, .custom, none⟩)
    | none => none

def transferNext (s : CloneTransfer) (i : Nat) (errors : TransferErrors) : CloneTransfer :=
  if i < s.sources.length then
    match s.transferEntry i errors with
    | some s => { s with phase := .transferring (i + 1) }
    | none => { s with phase := .writeFailed }
  else
    { s with phase := .written, policy := .ownsTransferablesIfAny }

def ownedContents (entry : TransferEntry) : Option Nat :=
  if entry.ownership.isOwned then entry.content else none

def discardTransferables (s : CloneTransfer) : CloneTransfer :=
  if s.policy ≠ .ownsTransferablesIfAny then s
  else if s.dataScope = .differentProcess then s
  else if s.header ≠ some .unread then s
  else { s with released := s.entries.filterMap ownedContents ++ s.released }

def clear (s : CloneTransfer) : CloneTransfer :=
  { s with header := none, entries := [], phase := .destroyed }

def destroy (s : CloneTransfer) : CloneTransfer := s.discardTransferables.clear

def startRead (s : CloneTransfer) (allowedScope : StructuredCloneScope) : CloneTransfer :=
  if s.header = some .unread then { s with phase := .reading 0 allowedScope } else s

def createObject (s : CloneTransfer) (contents : Option Nat) : CloneTransfer :=
  { s with destination := contents.toList ++ s.destination }

def readObject (s : CloneTransfer) (entry : TransferEntry) (allowedScope : StructuredCloneScope)
    (errors : ReadErrors) : Option CloneTransfer :=
  match entry.tag with
  | .pendingEntry => none
  | .arrayBuffer =>
    if allowedScope = .differentProcess || allowedScope = .differentProcessForIndexedDB then none
    else if entry.ownership = .allocData || entry.ownership = .mappedData then
      if errors.createFails then none else some (s.createObject entry.content)
    else none
  | .storedArrayBuffer =>
    if errors.createFails then none else some (s.allocate.createObject (some s.nextContents))
  | .custom => if errors.readTransferFails then none else some s

def markUnowned (s : CloneTransfer) (i : Nat) (entry : TransferEntry) : CloneTransfer :=
  s.writeEntry i { entry with ownership := .unowned }

def readNext (s : CloneTransfer) (i : Nat) (allowedScope : StructuredCloneScope)
    (errors : ReadErrors) : CloneTransfer :=
  match s.entries[i]? with
  | some entry =>
    if errors.truncated then { s with phase := .written }
    else
      match s.readObject entry allowedScope errors with
      | none => { s with phase := .written }
      | some s =>
        if errors.appendFails then { s.markUnowned i entry with phase := .written }
        else { s.markUnowned i entry with phase := .reading (i + 1) allowedScope }
  | none => { s with header := some .transferred, phase := .written }

def scriptDetaches (s : CloneTransfer) (object : Nat) : CloneTransfer :=
  match s.sources[object]? with
  | some (.arrayBuffer buffer) => s.detachSource object buffer
  | _ => s

def scriptPreparesForAsmJS (s : CloneTransfer) (object : Nat) : CloneTransfer :=
  match s.sources[object]? with
  | some (.arrayBuffer buffer) => s.setSource object { buffer with isPreparedForAsmJS := true }
  | _ => s

def sameProcessScopeRequired (s : CloneTransfer) : CloneTransfer :=
  if s.scope = .unknownDestination then { s with scope := .sameProcess } else s

def step (s : CloneTransfer) (event : TransferEvent) : Option CloneTransfer :=
  match s.phase, event with
  | .initial, .writeTransferMap failsAfter => some (s.writeTransferMap failsAfter)
  | .writing, .scriptDetaches object => some (s.scriptDetaches object)
  | .writing, .scriptPreparesForAsmJS object => some (s.scriptPreparesForAsmJS object)
  | .writing, .sameProcessScopeRequired => some s.sameProcessScopeRequired
  | .writing, .writingFails => some { s with phase := .writeFailed }
  | .writing, .writingDone => some { s with phase := .transferring 0 }
  | .transferring i, .transferEntry errors => some (s.transferNext i errors)
  | .writeFailed, .destroyWriter => some s.destroy
  | .written, .startRead allowedScope => some (s.startRead allowedScope)
  | .reading i allowedScope, .readEntry errors => some (s.readNext i allowedScope errors)
  | .written, .destroyBuffer => some s.destroy
  | _, _ => none

def run (s : CloneTransfer) (events : List TransferEvent) : Option CloneTransfer :=
  events.foldlM step s

-- How many owners the contents have, where a release counts as one.
def ownerCount (s : CloneTransfer) (contents : Nat) : Nat :=
  (s.sources.filterMap Transferable.owned).count contents
    + (s.entries.filterMap ownedContents).count contents
    + s.destination.count contents + s.released.count contents

end CloneTransfer

end SpiderMonkey
