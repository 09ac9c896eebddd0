import Mathlib.Data.Finset.Insert
import SpiderMonkey.UbiNode.Impl.BreadthFirst

/-!
This module contains the dominator tree of the heap's nodes: the depth-first traversal in post-order with an explicit
stack, the iteration that finds the immediate dominators, the buckets of what each node dominates, and the retained
sizes. Memory suffices.
-/

namespace SpiderMonkey.UbiNode

structure OriginAndEdges (Node Name : Type) where
  origin : Node
  edges : List (Edge Node Name)

structure PostOrder (Node Name : Type) where
  seen : Finset Node
  stack : List (OriginAndEdges Node Name)

namespace PostOrder

variable {Node Name S : Type} [DecidableEq Node] (edges : Node → List (Edge Node Name))

def init : PostOrder Node Name := ⟨∅, []⟩

def pushForTraversing (node : Node) (t : PostOrder Node Name) : PostOrder Node Name :=
  { t with stack := ⟨node, edges node⟩ :: t.stack }

def addStart (node : Node) (t : PostOrder Node Name) : PostOrder Node Name :=
  pushForTraversing edges node { t with seen := insert node t.seen }

-- The visitors fail when they yield nothing, and then so does the traversal.
def traverse (onNode : S → Node → Option S) (onEdge : S → Node → Edge Node Name → Option S)
    : (fuel : Nat) → S → PostOrder Node Name → Option (Option S)
  | 0, _, _ => none
  | fuel + 1, s, t =>
    match t.stack with
    | [] => some (some s)
    | ⟨origin, vector⟩ :: below =>
      match vector.getLast? with
      | none =>
        match onNode s origin with
        | none => some none
        | some s => traverse onNode onEdge fuel s { t with stack := below }
      | some edge =>
        let t := { t with stack := ⟨origin, vector.dropLast⟩ :: below }
        match onEdge s origin edge with
        | none => some none
        | some s =>
          if edge.referent ∈ t.seen then traverse onNode onEdge fuel s t
          else
            traverse onNode onEdge fuel s
              (pushForTraversing edges edge.referent { t with seen := insert edge.referent t.seen })

end PostOrder

variable {Node Name : Type}

structure HashOrder (Node : Type) where
  all : Finset Node → List Node
  mem_all : ∀ (set : Finset Node) (node : Node), node ∈ all set ↔ node ∈ set

structure DominatedSets where
  dominated : List Nat
  indices : List Nat

structure DominatorTree (Node : Type) where
  postOrder : List Node
  nodeToPostOrderIndex : Node → Option Nat
  doms : List Nat
  dominatedSets : DominatedSets
  retainedSizes : Option (List UInt64)

namespace DominatedSets

def countSizes (doms indices : List Nat) : Option (List Nat) :=
  doms.foldlM (fun indices dom => do
    let size ← indices[dom]?
    some (indices.set dom (size + 1))) indices

def cumulate : Nat → List Nat → List Nat
  | _, [] => []
  | sumOfSizes, size :: sizes => (sumOfSizes + size) :: cumulate (sumOfSizes + size) sizes

def fillBuckets : (i : Nat) → (doms : List Nat) → (dominated indices : List Nat) → Option (List Nat × List Nat)
  | _, [], dominated, indices => some (dominated, indices)
  | i, idxOfDom :: doms, dominated, indices =>
    match indices[idxOfDom]? with
    | some (start + 1) =>
      if start < dominated.length then
        fillBuckets (i + 1) doms (dominated.set start i) (indices.set idxOfDom start)
      else none
    | _ => none

def Create (doms : List Nat) : Option DominatedSets := do
  let length := doms.length
  let indices ← countSizes doms (List.replicate length 0)
  let indices := cumulate 0 indices
  let (dominated, indices) ← fillBuckets 0 doms (List.replicate length 0) indices
  some ⟨dominated, indices⟩

def dominatedSet (sets : DominatedSets) (postOrder : List Node) (nodeIndex : Nat) : Option (List Node) := do
  let first ← sets.indices[nodeIndex]?
  let last ← (if nodeIndex = sets.indices.length - 1 then some sets.dominated.length else sets.indices[nodeIndex + 1]?)
  ((sets.dominated.drop first).take (last - first)).mapM fun i => postOrder[i]?

end DominatedSets

namespace DominatorTree

def UINT32_MAX : Nat := 2 ^ 32 - 1

def UNDEFINED : Nat := UINT32_MAX

def intersect (doms : List Nat) : (rounds : Nat) → (finger1 finger2 : Nat) → Option Nat
  | 0, _, _ => none
  | rounds + 1, finger1, finger2 =>
    if finger1 ≠ finger2 then
      if finger1 < finger2 then do
        let finger1 ← doms[finger1]?
        intersect doms rounds finger1 finger2
      else do
        let finger2 ← doms[finger2]?
        intersect doms rounds finger1 finger2
    else some finger1

variable [DecidableEq Node]

structure Traversal (Node : Type) where
  nodeCount : Nat
  postOrder : List Node
  predecessorSets : Node → Option (Finset Node)

def onNode (s : Traversal Node) (node : Node) : Option (Traversal Node) :=
  let nodeCount := s.nodeCount + 1
  if nodeCount = UINT32_MAX then none
  else some { s with nodeCount := nodeCount, postOrder := s.postOrder ++ [node] }

def onEdge (s : Traversal Node) (origin : Node) (edge : Edge Node Name) : Option (Traversal Node) :=
  let set := (s.predecessorSets edge.referent).getD ∅
  some { s with predecessorSets := Function.update s.predecessorSets edge.referent (some (insert origin set)) }

def doTraversal (edges : Node → List (Edge Node Name)) (fuel : Nat) (root : Node) : Option (Option (Traversal Node)) :=
  PostOrder.traverse edges onNode onEdge fuel ⟨0, [], fun _ => none⟩ (PostOrder.init.addStart edges root)

def mapNodesToTheirIndices (postOrder : List Node) : Node → Option Nat :=
  postOrder.zipIdx.foldl (fun map entry => Function.update map entry.1 (some entry.2)) fun _ => none

def convertPredecessorSetsToVectors (order : HashOrder Node) (postOrder : List Node)
    (predecessorSets : Node → Option (Finset Node)) (nodeToPostOrderIndex : Node → Option Nat)
    : Option (List (List Nat)) := do
  let predecessorVectors ← postOrder.dropLast.mapM fun node => do
    let predecessors ← predecessorSets node
    (order.all predecessors).mapM nodeToPostOrderIndex
  some (predecessorVectors ++ [[]])

def initializeDominators (length : Nat) : List Nat := List.replicate (length - 1) UNDEFINED ++ [length - 1]

def firstProcessed (doms : List Nat) : (range : List Nat) → Option (Nat × List Nat)
  | [] => some (UNDEFINED, [])
  | idx :: range => do
    let dom ← doms[idx]?
    if dom ≠ UNDEFINED then some (idx, idx :: range) else firstProcessed doms range

def intersectAll (doms : List Nat) : (newIDomIdx : Nat) → (range : List Nat) → Option Nat
  | newIDomIdx, [] => some newIDomIdx
  | newIDomIdx, idx :: range => do
    let dom ← doms[idx]?
    if dom ≠ UNDEFINED then
      let newIDomIdx ← intersect doms (2 * doms.length + 1) newIDomIdx idx
      intersectAll doms newIDomIdx range
    else intersectAll doms newIDomIdx range

def newIDom (doms predecessors : List Nat) : Option Nat := do
  let (newIDomIdx, range) ← firstProcessed doms predecessors
  intersectAll doms newIDomIdx range

def pass (predecessorVectors : List (List Nat)) : (indexPlusOne : Nat) → List Nat → Bool → Option (List Nat × Bool)
  | 0, doms, changed => some (doms, changed)
  | index + 1, doms, changed => do
    let predecessors ← predecessorVectors[index]?
    let newIDomIdx ← newIDom doms predecessors
    let old ← doms[index]?
    if newIDomIdx ≠ old then pass predecessorVectors index (doms.set index newIDomIdx) true
    else pass predecessorVectors index doms changed

def iterate (predecessorVectors : List (List Nat)) : (fuel : Nat) → List Nat → Option (List Nat)
  | 0, _ => none
  | fuel + 1, doms => do
    let (doms, changed) ← pass predecessorVectors (doms.length - 1) doms false
    if changed then iterate predecessorVectors fuel doms else some doms

-- The outer option says whether the fuel suffices, the inner one is what is returned.
def Create (order : HashOrder Node) (edges : Node → List (Edge Node Name)) (fuel : Nat) (root : Node)
    : Option (Option (DominatorTree Node)) := do
  match ← doTraversal edges fuel root with
  | none => some none
  | some ⟨_, postOrder, predecessorSets⟩ =>
    let nodeToPostOrderIndex := mapNodesToTheirIndices postOrder
    let predecessorVectors ←
      convertPredecessorSetsToVectors order postOrder predecessorSets nodeToPostOrderIndex
    let doms ← iterate predecessorVectors fuel (initializeDominators postOrder.length)
    let dominatedSets ← DominatedSets.Create doms
    some (some ⟨postOrder, nodeToPostOrderIndex, doms, dominatedSets, none⟩)

variable (tree : DominatorTree Node)

def root : Option Node := tree.postOrder[tree.postOrder.length - 1]?

def getImmediateDominator (node : Node) : Option (Option Node) :=
  match tree.nodeToPostOrderIndex node with
  | none => some none
  | some idx => do
    let dom ← tree.doms[idx]?
    let node ← tree.postOrder[dom]?
    some (some node)

def getDominatedSet (node : Node) : Option (Option (List Node)) :=
  match tree.nodeToPostOrderIndex node with
  | none => some none
  | some idx => do
    let range ← tree.dominatedSets.dominatedSet tree.postOrder idx
    some (some range)

-- The size of a node and of what it immediately dominates. The root dominates itself, but doesn't contribute to its
-- own retained size.
def addRetained (retainedSizes : List UInt64) : UInt64 → List Node → Option UInt64
  | size, [] => some size
  | size, dominated :: range => do
    let root ← tree.root
    if dominated = root then addRetained retainedSizes size range
    else
      let idxOfDominated ← tree.nodeToPostOrderIndex dominated
      let retained ← retainedSizes[idxOfDominated]?
      addRetained retainedSizes (size + retained) range

def computeRetainedSizes (size : Node → UInt64) : Option (List UInt64) :=
  tree.postOrder.zipIdx.foldlM (fun retainedSizes entry => do
    let range ← tree.dominatedSets.dominatedSet tree.postOrder entry.2
    let size ← tree.addRetained retainedSizes (size entry.1) range
    some (retainedSizes.set entry.2 size)) (List.replicate tree.postOrder.length 0)

def getRetainedSize (size : Node → UInt64) (node : Node) : Option (UInt64 × DominatorTree Node) :=
  match tree.nodeToPostOrderIndex node with
  | none => some (0, tree)
  | some idx => do
    let retainedSizes ←
      match tree.retainedSizes with
      | some retainedSizes => some retainedSizes
      | none => tree.computeRetainedSizes size
    let outSize ← retainedSizes[idx]?
    some (outSize, { tree with retainedSizes := some retainedSizes })

end DominatorTree
end SpiderMonkey.UbiNode
