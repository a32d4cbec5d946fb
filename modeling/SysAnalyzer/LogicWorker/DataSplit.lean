import SysAnalyzer.Foundation.ParseInt
import SysAnalyzer.Foundation.PropertyMap
import SysAnalyzer.Foundation.Run
import SysAnalyzer.Foundation.TriePreorder

/-!
# Data mining of call trees

`MerageBeanDataSplit` hides nodes of a merged call tree by rules.  A node counts
in `isStore` how often it is hidden, and `splitMapData` has the nodes that each
rule hides, by its name, for the rule to be undone.  The visible tree is hung
together anew: a node that is not hidden goes to the nearest node above it that
is not hidden either.

Nodes are named by references.  The nodes above a node are the chain of its
`parentNode`.  `splitMapData` is a plain object, so the names of the properties
that every object inherits do not stand for a list.
-/

namespace SysAnalyzer.LogicWorker

open Foundation

/-- `MerageBean`, with what the rules and a search read of it. -/
structure MerageBean where
  ref : Nat
  symbolName : String
  libName : String
  path : String
  count : Nat
  deriving DecidableEq

/-- A node with `initChildren`. -/
abbrev MerageTree := MergeTree MerageBean

/-- A node behind those above it, the nearest first, which it leads itself. -/
abbrev MerageEntry := List MerageBean × MerageBean

/-- The nodes of a forest. -/
def merageEntries (processes : List MerageTree) : List MerageEntry := preorderAll id [] processes

structure MergedCallTree where
  processes : List MerageTree
  currentTreeList : List Nat
  distinct : ((merageEntries processes).map fun entry => entry.2.ref).Nodup
  listed : currentTreeList.Perm (((merageEntries processes).filter fun entry =>
    !entry.1.tail.isEmpty).map fun entry => entry.2.ref)

/-- What changes at the nodes of a tree, and `splitMapData`. -/
structure DataSplit where
  isStore : Nat → Int
  searchShow : Nat → Bool
  children : Nat → List Nat
  splitMapData : List (String × List Nat)

def systmeRuleName : String := "/system/"

def numRuleName : String := "/max/min/"

namespace DataSplit

/-- A node is hidden once more and goes to the list of a rule.  What an object
inherits has no `push`, so there is no result. -/
def store (name : String) (ref : Nat) (state : DataSplit) : Option DataSplit :=
  if name ∈ objectPrototypeNames then none
  else
    some { state with
      isStore := fun other => if other = ref then state.isStore other + 1 else state.isStore other
      splitMapData := upsert name (fun list => list.getD [] ++ [ref]) state.splitMapData }

/-- `children` of a node are emptied. -/
def clearChildren (ref : Nat) (state : DataSplit) : DataSplit :=
  { state with
    children := fun other => if other = ref then [] else state.children other }

end DataSplit

open DataSplit

def isNamed (symbolName : String) (isSymbol : Bool) (node : MerageBean) : Bool :=
  (isSymbol && node.symbolName == symbolName) || (!isSymbol && node.libName == symbolName)

mutual

def recursionChargeInitTree (symbolName : String) (isSymbol : Bool)
    (state : DataSplit) : MerageTree → Option DataSplit
  | .node node initChildren =>
    let stored :=
      if isNamed symbolName isSymbol node then store symbolName node.ref state
      else some state
    match stored with
    | none => none
    | some state => recursionChargeInitTrees symbolName isSymbol state initChildren

/-- `recursionChargeInitTree` of some children. -/
def recursionChargeInitTrees (symbolName : String) (isSymbol : Bool)
    (state : DataSplit) : List MerageTree → Option DataSplit
  | [] => some state
  | child :: children =>
    match recursionChargeInitTree symbolName isSymbol state child with
    | none => none
    | some state => recursionChargeInitTrees symbolName isSymbol state children

end

mutual

/-- `pruneChildren`, for one child. -/
def pruneChild (symbolName : String) (state : DataSplit) : MerageTree → Option DataSplit
  | .node child initChildren =>
    match store symbolName child.ref state with
    | none => none
    | some state => pruneChildren symbolName state initChildren

def pruneChildren (symbolName : String) (state : DataSplit) : List MerageTree → Option DataSplit
  | [] => some state
  | child :: children =>
    match pruneChild symbolName state child with
    | none => none
    | some state => pruneChildren symbolName state children

end

mutual

def recursionPruneInitTree (symbolName : String) (isSymbol : Bool)
    (state : DataSplit) : MerageTree → Option DataSplit
  | .node node initChildren =>
    if isNamed symbolName isSymbol node then
      match store symbolName node.ref state with
      | none => none
      | some state => pruneChildren symbolName state initChildren
    else recursionPruneInitTrees symbolName isSymbol state initChildren

/-- `recursionPruneInitTree` of some children. -/
def recursionPruneInitTrees (symbolName : String) (isSymbol : Bool)
    (state : DataSplit) : List MerageTree → Option DataSplit
  | [] => some state
  | child :: children =>
    match recursionPruneInitTree symbolName isSymbol state child with
    | none => none
    | some state => recursionPruneInitTrees symbolName isSymbol state children

end

mutual

def recursionChargeByRule (ruleName : String) (rule : MerageBean → Bool)
    (state : DataSplit) : MerageTree → Option DataSplit
  | .node _ initChildren => recursionChargeChildrenByRule ruleName rule state initChildren

/-- The loop of `recursionChargeByRule`. -/
def recursionChargeChildrenByRule (ruleName : String)
    (rule : MerageBean → Bool) (state : DataSplit) : List MerageTree → Option DataSplit
  | [] => some state
  | child :: children =>
    let stored :=
      if rule child.data then store ruleName child.data.ref state
      else some state
    match stored with
    | none => none
    | some state =>
      match recursionChargeByRule ruleName rule state child with
      | none => none
      | some state => recursionChargeChildrenByRule ruleName rule state children

end

def isSystemLibrary (node : MerageBean) : Bool := systmeRuleName.toList.isPrefixOf node.path.toList

def maxCount (endNum : String) : Option Number :=
  if endNum = "∞" then some (.infinity false) else parseIntAnyBase endNum

def isOutOfBounds (startNum : Option Number) (endNum : String) (node : MerageBean) : Bool :=
  (startNum.any fun start => (Number.finite node.count).less start) ||
    (maxCount endNum).any fun max => max.less (.finite node.count)

/-! ## The visible tree -/

namespace MergedCallTree

variable (tree : MergedCallTree)

def entries : List MerageEntry := merageEntries tree.processes

/-- The node with a reference. -/
def entryOf (ref : Nat) : Option MerageEntry := tree.entries.find? fun entry => entry.2.ref = ref

/-- `parentNode` of a node, the `parentNode` of that, and so on. -/
def parentNodes (ref : Nat) : List Nat :=
  ((tree.entryOf ref).map fun entry => entry.1.tail.map MerageBean.ref).getD []

/-- `symbolName` of a node. -/
def symbolName (ref : Nat) : String :=
  ((tree.entryOf ref).map fun entry => entry.2.symbolName).getD ""

/-- The number of nodes above each other. -/
def height : Nat := (tree.entries.map fun entry => entry.1.length).foldr max 0

def processRefs : List Nat := tree.processes.map fun process => process.data.ref

/-- The tree as it is merged: a node is a child of its `parentNode`. -/
def merged : DataSplit where
  isStore _ := 0
  searchShow _ := true
  children ref :=
    (tree.entries.filter fun entry =>
      entry.1.tail.head?.any fun parent => parent.ref = ref).map fun entry => entry.2.ref
  splitMapData := []

/-- A node that is neither hidden nor left out by a search. -/
def isShown (state : DataSplit) (ref : Nat) : Bool := state.isStore ref == 0 && state.searchShow ref

/-- A node goes to the nearest node above it that is shown. -/
def hangNode (state : DataSplit) (item : Nat) : DataSplit :=
  if isShown state item then
    match (tree.parentNodes item).find? (isShown state) with
    | none => state
    | some parentNode =>
      { state with
        children := fun ref =>
          if ref = parentNode then state.children ref ++ [item]
          else state.children ref }
  else state

def resetNewAllNode (state : DataSplit) : DataSplit :=
  let cleared :=
    (tree.processRefs ++ tree.currentTreeList).foldl
      (fun state ref => clearChildren ref state) state
  tree.currentTreeList.foldl tree.hangNode cleared

/-- `clearSearchNode`, and the same for the processes. -/
def clearSearchNode (state : DataSplit) : DataSplit :=
  { state with
    searchShow := fun ref =>
      if ref ∈ tree.currentTreeList ++ tree.processRefs then true
      else state.searchShow ref }

variable (includesSearch : String → String → Bool)

/-- A node is shown by a search, and those above it if it is found. -/
def showNode (search : String) (parentSearch : Bool) (state : DataSplit) (node : Nat) : DataSplit :=
  let found := parentSearch || (tree.symbolName node != "" &&
    includesSearch (tree.symbolName node) search)
  let above := (tree.parentNodes node).takeWhile fun parent => !state.searchShow parent
  { state with
    searchShow := fun ref =>
      if ref = node then found
      else state.searchShow ref || (found && above.contains ref) }

/-- `findSearchNode`, as far as some levels of the visible tree. -/
def findSearchNode (search : String) :
    (levels : Nat) → List Nat → (parentSearch : Bool) → DataSplit → Option DataSplit
  | _, [], _, state => some state
  | 0, _ :: _, _, _ => none
  | levels + 1, nodes, parentSearch, state =>
    nodes.foldlM (fun state node =>
      let next := tree.showNode includesSearch search parentSearch state node
      findSearchNode search levels (next.children node) (next.searchShow node) next)
      state

def resetAllNode (searchValue : String) (state : DataSplit) : Option DataSplit :=
  let reset := tree.resetNewAllNode (tree.clearSearchNode state)
  if searchValue = "" then some reset
  else
    (tree.findSearchNode includesSearch searchValue tree.height
      tree.processRefs false reset).map tree.resetNewAllNode

def resotreAllNode (symbols : List String) (state : DataSplit) : Option DataSplit :=
  symbols.foldlM (fun state symbol =>
      -- What an object inherits has no `forEach`.
    if symbol ∈ objectPrototypeNames then none
    else
      some { state with
        isStore := fun ref =>
          ((state.splitMapData.lookup symbol).getD []).foldl
            (fun isStore item => if item = ref then isStore - 1 else isStore)
            (state.isStore ref) })
    state

def clearSplitMapData (symbolName : String) (state : DataSplit) : DataSplit :=
  { state with
    splitMapData := state.splitMapData.filter fun entry => entry.1 != symbolName }

/-- A recursion from every process, the `children` of which are emptied first. -/
def forEachProcess (recursion : DataSplit → MerageTree → Option DataSplit)
    (state : DataSplit) : Option DataSplit :=
  tree.processes.foldlM (fun state process =>
    recursion (clearChildren process.data.ref state) process)
    state

def splitTree (name : String) (isCharge isSymbol : Bool) (searchValue : String)
    (state : DataSplit) : Option DataSplit :=
  (tree.forEachProcess (if isCharge then recursionChargeInitTree name isSymbol
    else recursionPruneInitTree name isSymbol)
    state).bind (tree.resetAllNode includesSearch searchValue)

def hideSystemLibrary (state : DataSplit) : Option DataSplit :=
  tree.forEachProcess (recursionChargeByRule systmeRuleName isSystemLibrary) state

def hideNumMaxAndMin (startNum : Option Number) (endNum : String)
    (state : DataSplit) : Option DataSplit :=
  tree.forEachProcess (recursionChargeByRule numRuleName (isOutOfBounds startNum endNum)) state

end MergedCallTree

/-- What is done to a tree: a rule is applied or undone, or the tree hung together. -/
inductive DataMining where
  | splitTree (name : String) (isCharge isSymbol : Bool) (searchValue : String)
  | hideSystemLibrary
  | hideNumMaxAndMin (startNum : Option Number) (endNum : String)
  | undo (name : String)
  | resetAllNode (searchValue : String)

namespace MergedCallTree

variable (tree : MergedCallTree) (includesSearch : String → String → Bool)

/-- One operation. -/
def mine (state : DataSplit) : DataMining → Option DataSplit
  | .splitTree name isCharge isSymbol searchValue =>
    tree.splitTree includesSearch name isCharge isSymbol searchValue state
  | .hideSystemLibrary => tree.hideSystemLibrary state
  | .hideNumMaxAndMin startNum endNum => tree.hideNumMaxAndMin startNum endNum state
  | .undo name => (resotreAllNode [name] state).map (clearSplitMapData name)
  | .resetAllNode searchValue => tree.resetAllNode includesSearch searchValue state

end MergedCallTree

end SysAnalyzer.LogicWorker
