import Mathlib.Data.Fintype.Card
import SpiderMonkey.Lib.PointerList

/-!
This module contains the search for strongly connected components of a graph of garbage collector
nodes.
-/

namespace SpiderMonkey

inductive DiscoveryTime where
  | undefined
  | time (clock : Nat)
  | finished
deriving DecidableEq, Repr

structure ComponentFinder (Node : Type) where
  gcNextGraphNode : Node → Option Node
  gcNextGraphComponent : Node → Option Node
  gcDiscoveryTime : Node → DiscoveryTime
  gcLowLink : Node → Nat
  -- An unsigned in the source, which 2^32 - 2 discovered nodes take to the value of a processed one.
  clock : Nat
  stack : Option Node
  firstComponent : Option Node
  cur : Option Node
  stackFull : Bool

namespace ComponentFinder

variable {Node : Type} [DecidableEq Node]

def nextNodeInGroup (s : ComponentFinder Node) (v : Node) : Option Node :=
  match s.gcNextGraphNode v with
  | some w => if s.gcNextGraphComponent w = s.gcNextGraphComponent v then some w else none
  | none => none

def nextGroup (s : ComponentFinder Node) (v : Node) : Option Node := s.gcNextGraphComponent v

def useOneComponent (s : ComponentFinder Node) : ComponentFinder Node :=
  { s with stackFull := true }

def lowerCur (low : Nat) (s : ComponentFinder Node) : ComponentFinder Node :=
  match s.cur with
  | some cur => { s with gcLowLink := Function.update s.gcLowLink cur (min (s.gcLowLink cur) low) }
  | none => s

def addEdgeTo (process : Node → ComponentFinder Node → Option (ComponentFinder Node))
    (s : ComponentFinder Node) (w : Node) : Option (ComponentFinder Node) :=
  match s.gcDiscoveryTime w with
  | .undefined => (process w s).map (fun s => lowerCur (s.gcLowLink w) s)
  | .finished => some s
  | .time clock => some (lowerCur clock s)

def discover (v : Node) (s : ComponentFinder Node) : ComponentFinder Node :=
  { s with
      gcDiscoveryTime := Function.update s.gcDiscoveryTime v (.time s.clock)
      gcLowLink := Function.update s.gcLowLink v s.clock
      clock := s.clock + 1
      gcNextGraphNode := Function.update s.gcNextGraphNode v s.stack
      stack := some v }

def finish (w : Node) (nextComponent : Option Node) (s : ComponentFinder Node)
    : ComponentFinder Node :=
  { s with
      stack := s.gcNextGraphNode w
      gcDiscoveryTime := Function.update s.gcDiscoveryTime w .finished
      gcNextGraphComponent := Function.update s.gcNextGraphComponent w nextComponent
      gcNextGraphNode := Function.update s.gcNextGraphNode w s.firstComponent
      firstComponent := some w }

def popComponent (v : Node) (nextComponent : Option Node) (rounds : Nat)
    (s : ComponentFinder Node) : Option (ComponentFinder Node) :=
  match s.stack, rounds with
  | none, _ => none
  | some _, 0 => none
  | some w, rounds + 1 =>
    let s := finish w nextComponent s
    if w ≠ v then popComponent v nextComponent rounds s else some s

section

variable [Fintype Node] (gcGraphEdges : Node → List Node)

-- `checkStackSize n` is the outcome of the check of the stack limit when the clock stands at `n`.
variable (checkStackSize : Nat → Bool)

def processNode (rounds : Nat) (v : Node) (s : ComponentFinder Node)
    : Option (ComponentFinder Node) :=
  match rounds with
  | 0 => none
  | rounds + 1 =>
    let s := discover v s
    if s.stackFull || !checkStackSize s.clock then
      some { s with stackFull := true }
    else
      let old := s.cur
      match (gcGraphEdges v).foldlM (addEdgeTo (processNode rounds)) { s with cur := some v } with
      | none => none
      | some s =>
        let s := { s with cur := old }
        if s.stackFull then
          some s
        else if .time (s.gcLowLink v) = s.gcDiscoveryTime v then
          popComponent v s.firstComponent (Fintype.card Node) s
        else
          some s

def addNode (v : Node) (s : ComponentFinder Node) : Option (ComponentFinder Node) :=
  if s.gcDiscoveryTime v = .undefined then
    processNode gcGraphEdges checkStackSize (Fintype.card Node) v s
  else
    some s

end

def popAll (firstGoodComponent : Option Node) (rounds : Nat) (s : ComponentFinder Node)
    : Option (ComponentFinder Node) :=
  match s.stack, rounds with
  | none, _ => some s
  | some _, 0 => none
  | some v, rounds + 1 =>
    popAll firstGoodComponent rounds
      { s with
          stack := s.gcNextGraphNode v
          gcNextGraphComponent := Function.update s.gcNextGraphComponent v firstGoodComponent
          gcNextGraphNode := Function.update s.gcNextGraphNode v s.firstComponent
          firstComponent := some v }

def reset (rounds : Nat) (v : Option Node) (s : ComponentFinder Node)
    : Option (ComponentFinder Node) :=
  match v, rounds with
  | none, _ => some s
  | some _, 0 => none
  | some v, rounds + 1 =>
    reset rounds (s.gcNextGraphNode v)
      { s with
          gcDiscoveryTime := Function.update s.gcDiscoveryTime v .undefined
          gcLowLink := Function.update s.gcLowLink v 0 }

def collect [Fintype Node] (s : ComponentFinder Node) : Option (ComponentFinder Node) :=
  if s.stackFull then
    (popAll s.firstComponent (Fintype.card Node) s).map (fun s => { s with stackFull := false })
  else
    some s

def getResultsList [Fintype Node] (s : ComponentFinder Node)
    : Option (ComponentFinder Node × Option Node) :=
  match collect s with
  | none => none
  | some s =>
    let result := s.firstComponent
    (reset (Fintype.card Node) result { s with firstComponent := none }).map
      (fun s => (s, result))

inductive Call (Node : Type) where
  | addNode (v : Node)
  | useOneComponent
deriving DecidableEq, Repr

def call [Fintype Node] (gcGraphEdges : Node → List Node) (checkStackSize : Nat → Bool)
    (s : ComponentFinder Node) (c : Call Node) : Option (ComponentFinder Node) :=
  match c with
  | .addNode v => addNode gcGraphEdges checkStackSize v s
  | .useOneComponent => some (useOneComponent s)

def readGroups [Fintype Node] (s : ComponentFinder Node) (result : Option Node)
    : List (List Node) :=
  (PointerList.follow s.nextGroup (Fintype.card Node) result).map (fun v =>
    PointerList.follow s.nextNodeInGroup (Fintype.card Node) (some v))

end ComponentFinder
end SpiderMonkey
