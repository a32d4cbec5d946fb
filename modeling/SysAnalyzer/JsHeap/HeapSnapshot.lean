import SysAnalyzer.Foundation.ParseInt

/-!
# Heap snapshots

The nodes of a snapshot by their ids, and the edges between them.  Here and in
the other modules on snapshots numbers are integers, and stand for those below
2^53, which are exact in the source.
-/

namespace SysAnalyzer.JsHeap

open Foundation List

/-- `EdgeType`; `STRING_OR_NUMBER` has the value of `WEAK`. -/
inductive EdgeType where
  | context
  | element
  | property
  | internal
  | hidden
  | shortcut
  | weak
  | node
  | invisible
  deriving DecidableEq

inductive NodeType where
  | hidden
  | array
  | string
  | object
  | code
  | closure
  | regexp
  | number
  | native
  | synthetic
  | concatenatedString
  | slicedString
  | symbol
  | bigint
  | objectShape
  deriving DecidableEq

structure HeapEdge where
  type : EdgeType
  nameOrIndex : String
  toNodeId : Nat

/-- `HeapNode`, with its edges in the order in which they were added. -/
structure HeapNode where
  type : NodeType
  name : String
  id : Nat
  edges : List HeapEdge

namespace HeapNode

def isUserRoot (node : HeapNode) : Bool := node.type != .synthetic

def isDocumentDOMTreesRoot (node : HeapNode) : Bool :=
  node.type != .synthetic && node.name == "(Document DOM trees)"

end HeapNode

/-- A snapshot; its root is the node with the lowest index. -/
structure HeapSnapshot where
  rootNode : HeapNode
  others : List HeapNode
  /-- `nodeMap` has one node for each id. -/
  distinct : ((rootNode :: others).map HeapNode.id).Nodup
  /-- Ids are 32-bit values. -/
  small : ∀ node ∈ rootNode :: others, node.id < 2 ^ 32

namespace HeapSnapshot

variable (snapshot : HeapSnapshot)

def nodes : List HeapNode := snapshot.rootNode :: snapshot.others

def nodeCount : Nat := snapshot.nodes.length

def get (id : Nat) : Option HeapNode := snapshot.nodes.find? fun node => node.id == id

variable {snapshot}

variable {node : HeapNode}

theorem id_of_get {id : Nat} (found : snapshot.get id = some node) : node.id = id := by
  have same := List.find?_some found
  exact beq_iff_eq.1 same

theorem mem_of_get {id : Nat} (found : snapshot.get id = some node) : node ∈ snapshot.nodes :=
  List.mem_of_find?_eq_some found

theorem get_id (member : node ∈ snapshot.nodes) : snapshot.get node.id = some node := by
  cases found : snapshot.get node.id with
  | none =>
    have absent := List.find?_eq_none.1 found node member
    simp at absent
  | some other =>
    have same := inj_on_of_nodup_map snapshot.distinct (mem_of_get found) member (id_of_get found)
    rw [same]

@[simp]
theorem get_root : snapshot.get snapshot.rootNode.id = some snapshot.rootNode :=
  get_id mem_cons_self

theorem small_of_get {id : Nat} (found : snapshot.get id = some node) : id < 2 ^ 32 := by
  rw [← id_of_get found]
  exact snapshot.small node (mem_of_get found)

end HeapSnapshot

def followsDescriptor (index : Option Number) : Bool :=
  match index with
  | none => true
  | some (.infinity _) => true
  | some (.finite value) => decide (value < 2) || decide (value - 3 * (⌊value / 3⌋ : ℤ) ≠ 1)

def filterForBpf (node : HeapNode) (edge : HeapEdge) : Bool :=
  match node.type with
  | .hidden => edge.nameOrIndex != "sloppy_function_map" || node.name != "system / NativeContext"
  | .array =>
    if node.name != "(map descriptors)" then true
    else followsDescriptor (parseInt edge.nameOrIndex)
  | _ => true

end SysAnalyzer.JsHeap
