import Mathlib.Data.Int.NatAbs
import Mathlib.Logic.Function.Basic

/-!
This module contains the breadth-first traversal of the heap's nodes, with a handler for every edge. Memory
suffices.
-/

namespace SpiderMonkey.UbiNode

structure Edge (Node Name : Type) where
  name : Name
  referent : Node
deriving DecidableEq

-- A queue of two vectors: what is appended goes to the tail, unless the front is where the head begins.
structure Queue (T : Type) where
  head : List T
  tail : List T
  frontIndex : Nat

namespace Queue

variable {T : Type}

def init : Queue T := ⟨[], [], 0⟩

def empty (q : Queue T) : Bool := q.frontIndex ≥ q.head.length

def front (q : Queue T) : Option T := q.head[q.frontIndex]?

def popFront (q : Queue T) : Queue T :=
  let q := { q with frontIndex := q.frontIndex + 1 }
  if q.frontIndex ≥ q.head.length then ⟨q.tail, [], 0⟩ else q

def append (elt : T) (q : Queue T) : Queue T :=
  if q.frontIndex = 0 then { q with head := q.head ++ [elt] } else { q with tail := q.tail ++ [elt] }

end Queue

structure BreadthFirst (Node NodeData : Type) where
  visited : Node → Option NodeData
  pending : Queue Node
  stopRequested : Bool
  abandonRequested : Bool
  markReferentAsVisited : Bool

namespace BreadthFirst

variable {Node Name NodeData Handler : Type} [DecidableEq Node] [Inhabited NodeData]

def init : BreadthFirst Node NodeData where
  visited _ := none
  pending := Queue.init
  stopRequested := false
  abandonRequested := false
  markReferentAsVisited := false

def addStart (node : Node) (t : BreadthFirst Node NodeData) : BreadthFirst Node NodeData :=
  { t with pending := t.pending.append node }

def stop (t : BreadthFirst Node NodeData) : BreadthFirst Node NodeData := { t with stopRequested := true }

variable (call : Handler → BreadthFirst Node NodeData → (origin : Node) → Edge Node Name → NodeData → (first : Bool)
  → Option (Handler × BreadthFirst Node NodeData × NodeData))

def traverseEdges (origin : Node) : (range : List (Edge Node Name)) → Handler → BreadthFirst Node NodeData
    → Option (Handler × BreadthFirst Node NodeData)
  | [], handler, t => some (handler, t)
  | edge :: range, handler, t => do
    let a := t.visited edge.referent
    let first := a.isNone
    let nodeData := a.getD default
    let t := { t with markReferentAsVisited := true }
    let (handler, t, nodeData) ← call handler t origin edge nodeData first
    let t :=
      if !first || t.markReferentAsVisited then
        { t with visited := Function.update t.visited edge.referent (some nodeData) }
      else t
    if t.stopRequested then
      return (handler, t)
    else
      let t :=
        if t.abandonRequested then { t with abandonRequested := false }
        else if first then { t with pending := t.pending.append edge.referent }
        else t
      traverseEdges origin range handler t

variable (edges : Node → List (Edge Node Name))

def traverse : (fuel : Nat) → Handler → BreadthFirst Node NodeData → Option (Handler × BreadthFirst Node NodeData)
  | 0, _, _ => none
  | fuel + 1, handler, t =>
    if t.pending.empty then some (handler, t)
    else do
      let origin ← t.pending.front
      let t := { t with pending := t.pending.popFront }
      let (handler, t) ← traverseEdges call origin (edges origin) handler t
      if t.stopRequested then
        return (handler, t)
      else
        traverse fuel handler t

end BreadthFirst
end SpiderMonkey.UbiNode
