import Mathlib.Data.Finset.Card
import SpiderMonkey.UbiNode.Impl.BreadthFirst

/-!
This module contains the shortest retaining paths of the heap's nodes.
-/

namespace SpiderMonkey.UbiNode

variable {Node Name : Type}

structure BackEdge (Node Name : Type) where
  predecessor : Node
  name : Name
deriving DecidableEq

instance [Inhabited Node] [Inhabited Name] : Inhabited (BackEdge Node Name) := ⟨⟨default, default⟩⟩

def BackEdge.init (predecessor : Node) (edge : Edge Node Name) : BackEdge Node Name := ⟨predecessor, edge.name⟩

structure ShortestPaths (Node Name : Type) where
  maxNumPaths : Nat
  root : Node
  targets : Finset Node
  paths : Node → Option (List (BackEdge Node Name))
  backEdges : Node → Option (BackEdge Node Name)

namespace ShortestPaths

variable [DecidableEq Node]

structure Handler (Node Name : Type) where
  shortestPaths : ShortestPaths Node Name
  totalMaxPathsToRecord : Nat
  totalPathsRecorded : Nat

-- Both factors are `uint32_t`.
def Handler.init (shortestPaths : ShortestPaths Node Name) : Handler Node Name where
  shortestPaths := shortestPaths
  totalMaxPathsToRecord := shortestPaths.targets.card * shortestPaths.maxNumPaths % 2 ^ 32
  totalPathsRecorded := 0

def Handler.record (handler : Handler Node Name) (referent : Node) (paths : List (BackEdge Node Name))
    : Handler Node Name where
  shortestPaths :=
    { handler.shortestPaths with paths := Function.update handler.shortestPaths.paths referent (some paths) }
  totalMaxPathsToRecord := handler.totalMaxPathsToRecord
  totalPathsRecorded := handler.totalPathsRecorded + 1

def Handler.recordReferent (handler : Handler Node Name) (origin : Node) (edge : Edge Node Name)
    (back : BackEdge Node Name) (first : Bool) : Option (Handler Node Name) :=
  if first then some (handler.record edge.referent [back])
  else
    match handler.shortestPaths.paths edge.referent with
    | none => none
    | some ptr =>
      if ptr.length < handler.shortestPaths.maxNumPaths then
        some (handler.record edge.referent (ptr ++ [BackEdge.init origin edge]))
      else some handler

def Handler.call (handler : Handler Node Name) (traversal : BreadthFirst Node (BackEdge Node Name)) (origin : Node)
    (edge : Edge Node Name) (back : BackEdge Node Name) (first : Bool)
    : Option (Handler Node Name × BreadthFirst Node (BackEdge Node Name) × BackEdge Node Name) :=
  let back := if first then BackEdge.init origin edge else back
  if edge.referent ∉ handler.shortestPaths.targets then some (handler, traversal, back)
  else do
    let handler ← handler.recordReferent origin edge back first
    let traversal :=
      if handler.totalPathsRecorded = handler.totalMaxPathsToRecord then traversal.stop else traversal
    return (handler, traversal, back)

variable [Inhabited Node] [Inhabited Name]

def Create (edges : Node → List (Edge Node Name)) (fuel maxNumPaths : Nat) (root : Node) (targets : Finset Node)
    : Option (ShortestPaths Node Name) := do
  let paths : ShortestPaths Node Name := ⟨maxNumPaths, root, targets, fun _ => none, fun _ => none⟩
  let traversal := BreadthFirst.init.addStart root
  let (handler, traversal) ← BreadthFirst.traverse Handler.call edges fuel (Handler.init paths) traversal
  return { handler.shortestPaths with backEdges := traversal.visited }

def walk (sp : ShortestPaths Node Name) : (fuel : Nat) → (here : Node) → (path : List (BackEdge Node Name))
    → Option (List (BackEdge Node Name))
  | 0, _, _ => none
  | fuel + 1, here, path =>
    if here ≠ sp.root then do
      let p ← sp.backEdges here
      walk sp fuel p.predecessor (path ++ [p])
    else some path

def pathOf (sp : ShortestPaths Node Name) (fuel : Nat) (backEdge : BackEdge Node Name)
    : Option (List (BackEdge Node Name)) := do
  let path ← sp.walk fuel backEdge.predecessor [backEdge]
  return path.reverse

def forEachPath (sp : ShortestPaths Node Name) (fuel : Nat) (target : Node)
    : Option (List (List (BackEdge Node Name))) :=
  match sp.paths target with
  | none => some []
  | some ptr => ptr.mapM (sp.pathOf fuel)

end ShortestPaths
end SpiderMonkey.UbiNode
