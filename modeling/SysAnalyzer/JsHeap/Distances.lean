import SysAnalyzer.Foundation.BreadthFirst
import SysAnalyzer.JsHeap.HeapSnapshot

/-!
# Distances in a heap snapshot

`calDistances` runs two breadth-first searches over one array of `nodeCount`
entries, in which a write behind the end is lost.  The first starts at the user
roots, as often as the root has an edge to them, and the second at the root.

Every edge of the root to a user root takes an entry.  Where they and the other
nodes that are reached are more than the nodes of the snapshot, the first search
throws; otherwise nothing is lost, and the distances are shortest distances.
-/

namespace SysAnalyzer.JsHeap

open Foundation

def baseSystemDistance : Int := 100000000

/-- The distances of the nodes by their ids, and the nodes to visit. -/
structure Visit where
  distance : Nat → Int
  /-- `nodesToVisit`, an array of 32-bit entries. -/
  nodesToVisit : List Nat
  nodesToVisitLen : Nat
  index : Nat

namespace Visit

def push (visit : Visit) (id : Nat) (distance : Int) : Visit :=
  { visit with
    distance := Function.update visit.distance id distance
    nodesToVisit := visit.nodesToVisit.set visit.nodesToVisitLen (id % 2 ^ 32)
    nodesToVisitLen := visit.nodesToVisitLen + 1 }

/-- An entry is taken. -/
def advance (visit : Visit) : Visit := { visit with index := visit.index + 1 }

end Visit

namespace HeapSnapshot

variable (snapshot : HeapSnapshot)

/-- An edge of a visited node in `bfs`. -/
def visitEdge (node : HeapNode) (distance : Int) (visit : Visit) (edge : HeapEdge) : Visit :=
  if edge.type = .weak then visit
  else
    match snapshot.get edge.toNodeId with
    | none => visit
    | some childNode =>
      if visit.distance childNode.id ≠ -5 ∨ filterForBpf node edge = false then visit
      else visit.push childNode.id distance

def visitNext (visit : Visit) : Visit :=
  match visit.nodesToVisit[visit.index]? with
  | none => visit.advance
  | some nodeId =>
    match snapshot.get nodeId with
    | none => visit.advance
    | some node =>
      node.edges.foldl (snapshot.visitEdge node (visit.distance node.id + 1)) visit.advance

/-- The loop of `bfs`, with a bound on its rounds. -/
def visitAll : (rounds : Nat) → Visit → Visit
  | 0, visit => visit
  | rounds + 1, visit =>
    if visit.index < visit.nodesToVisitLen then visitAll rounds (snapshot.visitNext visit)
    else visit

def bfs (visit : Visit) : Except String Visit :=
  let start := { visit with index := 0 }
  let last := snapshot.visitAll (visit.nodesToVisitLen + snapshot.nodeCount) start
  if snapshot.nodeCount < last.nodesToVisitLen then
    .error <| "BFS failed. Nodes to visit " ++ toString last.nodesToVisitLen ++
      " is more than nodes count " ++ toString snapshot.nodeCount
  else .ok last

/-- An edge of the root in `calDistances`. -/
def seedEdge (visit : Visit) (edge : HeapEdge) : Visit :=
  match snapshot.get edge.toNodeId with
  | none => visit
  | some node =>
    if node.isUserRoot || node.isDocumentDOMTreesRoot then visit.push node.id 1
    else visit

def seeded : Visit :=
  snapshot.rootNode.edges.foldl snapshot.seedEdge
    { distance := fun _ => -5
      nodesToVisit := List.replicate snapshot.nodeCount 0
      nodesToVisitLen := 0
      index := 0 }

def rootDistance : Int := if 0 < snapshot.seeded.nodesToVisitLen then baseSystemDistance else 0

def fromRoot (visit : Visit) : Visit :=
  { visit with
    distance := Function.update visit.distance snapshot.rootNode.id snapshot.rootDistance
    nodesToVisit := visit.nodesToVisit.set 0 (snapshot.rootNode.id % 2 ^ 32)
    nodesToVisitLen := 1 }

/-- `calDistances`, with the distances of all nodes. -/
def calDistances : Except String (Nat → Int) := do
  let visited ← snapshot.bfs snapshot.seeded
  let last ← snapshot.bfs (snapshot.fromRoot visited)
  return last.distance

/-- The edges that `bfs` follows. -/
def accepts (node : HeapNode) (edge : HeapEdge) : Bool :=
  edge.type != .weak && (snapshot.get edge.toNodeId).isSome && filterForBpf node edge

/-- Where the edges of a node lead that `bfs` follows. -/
def next (id : Nat) : List Nat :=
  match snapshot.get id with
  | none => []
  | some node => (node.edges.filter (snapshot.accepts node)).map HeapEdge.toNodeId

def userRoot (edge : HeapEdge) : Option Nat :=
  match snapshot.get edge.toNodeId with
  | none => none
  | some node => if node.isUserRoot then some node.id else none

def userRoots : List Nat := snapshot.rootNode.edges.filterMap snapshot.userRoot

/-- Distances are shortest distances, from the user roots where a node can be
reached from them and from the root otherwise. -/
structure ShortestDistances (distance : Nat → Int) : Prop where
  user : ∀ id length, ShortestFrom snapshot.next snapshot.userRoots id length →
    distance id = 1 + length
  system : ∀ id length, ¬ Reached snapshot.next snapshot.userRoots id →
    ShortestFrom snapshot.next [snapshot.rootNode.id] id length →
    distance id = (if snapshot.userRoots = [] then 0 else baseSystemDistance) + length

end HeapSnapshot

end SysAnalyzer.JsHeap
