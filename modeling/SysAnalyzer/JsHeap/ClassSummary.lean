import SysAnalyzer.Foundation.KeyedRows
import SysAnalyzer.Foundation.PropertyMap
import SysAnalyzer.JsHeap.DominatedNodes
import SysAnalyzer.JsHeap.HeapSnapshot

/-!
# The classes of a heap

`getClassesForSummary` groups the nodes by their class names.  Then it walks over
the dominator tree with a stack and adds the retained sizes of the nodes to their
classes.  Below a node that has been added its class is marked as seen, and the
length of the stack is remembered at which the mark ends.
-/

namespace SysAnalyzer.JsHeap

open Foundation

def getNodeTypeName : NodeType → String
  | .hidden => "HIDDEN"
  | .array => "ARRAY"
  | .string => "STRING"
  | .object => "OBJECT"
  | .code => "CODE"
  | .closure => "CLOSURE"
  | .regexp => "REGEXP"
  | .number => "NUMBER"
  | .native => "NATIVE"
  | .synthetic => "SYNTHETIC"
  | .concatenatedString => "CONCATENATED_STRING"
  | .slicedString => "SLICED_STRING"
  | .symbol => "SYMBOL"
  | .bigint => "BIGINT"
  | .objectShape => "OBJECT_SHAPE"

/-- What a summary reads of a node of the heap; its index is its place. -/
structure SummaryNode where
  type : NodeType
  name : String
  displayName : String := ""
  id : Int
  selfSize : Nat
  retainedSize : Nat
  edgeCount : Nat := 0
  distance : Int := -5
  traceNodeId : Int := 0

namespace SummaryNode

def nodeName (node : SummaryNode) : String :=
  if node.displayName = "" then node.name else node.displayName

def className (node : SummaryNode) : String :=
  match node.type with
  | .hidden => "(system)"
  | .object | .native => node.nodeName
  | .code => "(compiled code)"
  | type => ("(" ++ getNodeTypeName type ++ ")").toLower

end SummaryNode

inductive ConstructorType where
  | classType
  | instanceType
  | filedType
  | retainersType
  | comparisonType

/-- The fields of `ConstructorItem` that a summary sets, with their initial values. -/
structure ConstructorItem where
  fileId : Int := -1
  nodeName : String := ""
  childCount : Int := 1
  distance : Int := -1
  shallowSize : Int := -1
  retainedSize : Int := -1
  hasNext : Bool := true
  edgeCount : Int := 0
  type : Option ConstructorType := none
  nodeType : Option NodeType := none
  id : Int := -1
  index : Int := -1
  traceNodeId : Int := -1

namespace ConstructorItem

/-- `HeapNodeToConstructorItem`, of a node at an index of the file with an id. -/
def ofNode (fileId : Int) (node : SummaryNode) (nodeIndex : Nat) : ConstructorItem where
  fileId := fileId
  id := node.id
  index := nodeIndex
  nodeName := node.nodeName
  edgeCount := node.edgeCount
  distance := node.distance
  shallowSize := node.selfSize
  retainedSize := node.retainedSize
  nodeType := some node.type

/-- `clone`, which leaves some fields out. -/
def clone (item : ConstructorItem) : ConstructorItem where
  fileId := item.fileId
  distance := item.distance
  shallowSize := item.shallowSize
  nodeName := item.nodeName
  edgeCount := item.edgeCount
  childCount := item.childCount
  hasNext := item.hasNext

end ConstructorItem

/-- A `ConstructorItem` of a class, with its `classChildren`. -/
structure SummaryClass extends ConstructorItem where
  classChildren : List ConstructorItem := []

namespace SummaryClass

def ofFirst (fileId : Int) (node : SummaryNode) (nodeIndex : Nat) : SummaryClass :=
  let classItem : ConstructorItem :=
    { ConstructorItem.ofNode fileId node nodeIndex with
      childCount := 1
      type := some .classType
      retainedSize := 0
      nodeName := node.className
      hasNext := true }
  let instanceItem : ConstructorItem :=
    { classItem.clone with
      type := some .instanceType
      id := node.id
      index := nodeIndex
      childCount := node.edgeCount
      retainedSize := node.retainedSize
      hasNext := decide (0 < node.edgeCount)
      traceNodeId := node.traceNodeId }
  { classItem with classChildren := [instanceItem] }

def addInstance (fileId : Int) (node : SummaryNode) (nodeIndex : Nat)
    (classItem : SummaryClass) : SummaryClass :=
  let nodeItem : ConstructorItem :=
    { ConstructorItem.ofNode fileId node nodeIndex with
      type := some .instanceType
      childCount := node.edgeCount
      hasNext := decide (0 < node.edgeCount) }
  { classItem with
    distance := min classItem.distance node.distance
    childCount := classItem.childCount + 1
    shallowSize := classItem.shallowSize + node.selfSize
    classChildren := classItem.classChildren ++ [nodeItem] }

def addRetained (retainedSize : Nat) (classItem : SummaryClass) : SummaryClass :=
  { classItem with
    retainedSize := classItem.retainedSize + retainedSize }

end SummaryClass

/-- A `Map` from class names to classes, in the order of insertion. -/
abbrev SummaryMap := List (String × SummaryClass)

/-- `minNodeId` and `maxNodeId`, where both are numbers. -/
def filterRange (minNodeId maxNodeId : Option Int) : Option (Int × Int) :=
  match minNodeId, maxNodeId with
  | some minId, some maxId => some (minId, maxId)
  | _, _ => none

/-- `filter`. -/
def passesFilter (range : Option (Int × Int)) (nodeId : Int) : Bool :=
  match range with
  | some (minId, maxId) => decide (minId ≤ nodeId) && decide (nodeId ≤ maxId)
  | none => true

def isLeftOut (range : Option (Int × Int)) (node : SummaryNode) : Bool :=
  !passesFilter range node.id || (node.selfSize == 0 && node.type != .native)

/-- A node whose retained size is added, if its class is not seen. -/
def isRetained (range : Option (Int × Int)) (node : SummaryNode) : Bool :=
  (range.isNone || passesFilter range node.id) && (node.selfSize != 0 || node.type == .native)

def addToClass (fileId : Int) (entry : SummaryNode × Nat) : Option SummaryClass → SummaryClass
  | none => .ofFirst fileId entry.1 entry.2
  | some classItem => classItem.addInstance fileId entry.1 entry.2

/-- The first loop: the nodes by their class names. -/
def combineClasses (fileId : Int) (range : Option (Int × Int))
    (nodes : List SummaryNode) : SummaryMap :=
  group (fun entry => entry.1.className) (addToClass fileId)
    (keptRows (fun node => !isLeftOut range node) nodes)

/-! ## The walk -/

structure SeenClasses where
  sizes : List Int
  classesName : List String
  seenClassName : String → Bool

namespace SeenClasses

/-- Before the walk. -/
def initial : SeenClasses := ⟨[-1], [], fun _ => false⟩

def mark (seenClasses : SeenClasses) (name : String) (length : Nat) : SeenClasses where
  sizes := length :: seenClasses.sizes
  classesName := name :: seenClasses.classesName
  seenClassName := Function.update seenClasses.seenClassName name true

/-- The marks that end at a length of the stack. -/
def unmark (length : Nat) : List Int → List String → (String → Bool) → SeenClasses
  | [], classesName, seenClassName => ⟨[], classesName, seenClassName⟩
  | size :: sizes, classesName, seenClassName =>
    if size = length then
      match classesName with
      | [] => unmark length sizes [] seenClassName
      | name :: names => unmark length sizes names (Function.update seenClassName name false)
    else ⟨size :: sizes, classesName, seenClassName⟩

/-- The loop at the end of a round. -/
def close (seenClasses : SeenClasses) (length : Nat) : SeenClasses :=
  unmark length seenClasses.sizes seenClasses.classesName seenClasses.seenClassName

end SeenClasses

/-- The state of the walk; the top of the stack is in front. -/
structure RetainedWalk where
  list : List Nat
  seenClasses : SeenClasses
  classes : SummaryMap

def selfSizeAt (nodes : List SummaryNode) (idx : Nat) : Nat :=
  (nodes[idx]?.map SummaryNode.selfSize).getD 0

/-- What `HeapLoader` has after `preprocess`. -/
structure SummaryLoader where
  fileId : Int
  nodes : List SummaryNode
  tree : DominatorTree
  sameLength : tree.dominators.length = nodes.length
  built : DominatedNodes
  isBuilt : buildDominatedNode 0 tree.dominators = .ok built
  /-- A node retains what is below it in the dominator tree. -/
  retains : ∀ idx node, nodes[idx]? = some node → node.retainedSize =
    ∑ lower ∈ tree.toParentTree.below idx, selfSizeAt nodes lower

namespace SummaryLoader

variable (loader : SummaryLoader) (range : Option (Int × Int))

/-- The node that was taken from the stack. -/
def visitNode (walk : RetainedWalk) (nodeIndex : Nat) (rest : List Nat) : RetainedWalk :=
  match loader.nodes[nodeIndex]? with
  | none => { walk with list := rest }
  | some node =>
    let name := node.className
    let dominatorFromIdx := loader.built.firstDominatedNodesIdx.getD nodeIndex 0
    let dominatorToIdx := loader.built.firstDominatedNodesIdx.getD (nodeIndex + 1) 0
    let list := (loader.built.slice nodeIndex).foldl (fun list nodeIdx => nodeIdx :: list) rest
    let entered : SeenClasses × SummaryMap :=
      if walk.seenClasses.seenClassName name = false ∧ isRetained range node = true then
        match walk.classes.lookup name with
        | none => (walk.seenClasses, walk.classes)
        | some classItem =>
          (if dominatorFromIdx ≠ dominatorToIdx then walk.seenClasses.mark name rest.length
          else
            walk.seenClasses,
          upsert name (fun _ => classItem.addRetained node.retainedSize) walk.classes)
      else (walk.seenClasses, walk.classes)
    { list
      seenClasses := entered.1.close list.length
      classes := entered.2 }

def walkNodes : (rounds : Nat) → RetainedWalk → RetainedWalk
  | 0, walk => walk
  | rounds + 1, walk =>
    match walk.list with
    | [] => walk
    | nodeIndex :: rest => walkNodes rounds (loader.visitNode range walk nodeIndex rest)

def computeClasses : SummaryMap :=
  (loader.walkNodes range loader.nodes.length
    { list := [0]
      seenClasses := .initial
      classes := combineClasses loader.fileId range loader.nodes }).classes

end SummaryLoader

/-- `allClasses` of a loader. -/
structure ClassCache (loader : SummaryLoader) where
  allClasses : Option SummaryMap
  isComputed : ∀ classes ∈ allClasses, classes = loader.computeClasses none

def getClassesForSummary (loader : SummaryLoader) (cache : ClassCache loader)
    (minNodeId maxNodeId : Option Int) : SummaryMap × ClassCache loader :=
  let range := filterRange minNodeId maxNodeId
  match range, cache.allClasses with
  | none, some classes => (classes, cache)
  | none, none =>
    (loader.computeClasses none,
      { allClasses := some (loader.computeClasses none)
        isComputed := by
          intro classes member
          exact (Option.mem_some_iff.1 member).symm })
  | some range, _ => (loader.computeClasses (some range), cache)

end SysAnalyzer.JsHeap
