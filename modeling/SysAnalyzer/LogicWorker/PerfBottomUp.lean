import SysAnalyzer.Foundation.Run
import SysAnalyzer.Foundation.TriePreorder
import SysAnalyzer.LogicWorker.PerfCallChains

/-!
# Perf samples by their innermost functions

`getBottomUp` first merges the call chains into a tree from the outermost frame
on.  Each node with time of its own is then turned round, into a chain of its
callers, and the chains of one function are merged at their first node.  The
callers wait in `frameChildren` to be merged as well, which no node is created
with, so those of the first chain stay and the others are lost.
-/

namespace SysAnalyzer.LogicWorker

open Foundation

/-- `PerfBottomUpStruct` without other nodes. -/
structure PerfBottomUpTime where
  symbolName : String := ""
  selfTime : Nat := 0
  totalTime : Nat := 0
  tsArray : List Int := []

/-- A node of the tree from the outermost frame on. -/
abbrev TopUpTree := MergeTree PerfBottomUpTime

/-- `PerfBottomUpStruct`; `frameChildren` may be undefined. -/
inductive PerfBottomUpStruct where
  | node (time : PerfBottomUpTime) (children : List PerfBottomUpStruct)
    (frameChildren : Option (List PerfBottomUpStruct))

namespace PerfBottomUpStruct

/-- The name and the times of a node. -/
def time : PerfBottomUpStruct → PerfBottomUpTime
  | node time _ _ => time

def children : PerfBottomUpStruct → List PerfBottomUpStruct
  | node _ children _ => children

def frameChildren : PerfBottomUpStruct → Option (List PerfBottomUpStruct)
  | node _ _ frameChildren => frameChildren

def symbolName (tree : PerfBottomUpStruct) : String := tree.time.symbolName

def selfTime (tree : PerfBottomUpStruct) : Nat := tree.time.selfTime

@[simp]
theorem time_node (time : PerfBottomUpTime) (children : List PerfBottomUpStruct)
    (frameChildren : Option (List PerfBottomUpStruct)) :
    (node time children frameChildren).time = time := rfl

@[simp]
theorem children_node (time : PerfBottomUpTime) (children : List PerfBottomUpStruct)
    (frameChildren : Option (List PerfBottomUpStruct)) :
    (node time children frameChildren).children = children := rfl

/-- The node that is reached along some callers. -/
def callerAt : (callers : List String) → PerfBottomUpStruct → Option PerfBottomUpStruct
  | [], tree => some tree
  | caller :: callers, tree =>
    match tree.children.find? fun child => child.symbolName = caller with
    | none => none
    | some child => callerAt callers child

end PerfBottomUpStruct

open PerfBottomUpTime PerfBottomUpStruct

def calculateSelfTime (time : PerfBottomUpTime) (children : List TopUpTree) : PerfBottomUpTime :=
  { time with
    selfTime :=
      time.totalTime -
        (children.map fun child => child.data.totalTime).sum }

/-- The frames of one sample are visited below a node.  The own time of each is
calculated again when its children have theirs. -/
def visitFrames (sampleTime : Nat) (ts : List Int) :
    (frames : List String) → (children : List TopUpTree) → List TopUpTree
  | [], children => children
  | frame :: rest, children =>
    let isOther := fun child : TopUpTree => child.data.symbolName != frame
    match children.dropWhile isOther with
    | [] =>
      let below := visitFrames sampleTime ts rest []
      children ++ [.node (calculateSelfTime
        { symbolName := frame
          totalTime := sampleTime
          tsArray := ts }
        below)
        below]
    | existingNode :: after =>
      let below := visitFrames sampleTime ts rest existingNode.children
      children.takeWhile isOther ++ .node (calculateSelfTime
        { existingNode.data with
          totalTime := existingNode.data.totalTime + sampleTime
          tsArray := existingNode.data.tsArray ++ ts }
        below)
        below :: after

/-- `copyParentNode`: the callers of a node take its times. -/
def copyParentNode (time : PerfBottomUpTime) : (callers : List String) → List PerfBottomUpStruct
  | [] => []
  | caller :: callers =>
    [.node { time with symbolName := caller } (copyParentNode time callers) none]

def clonePerfBottomUpStruct (time : PerfBottomUpTime) (callers : List String) :
    PerfBottomUpStruct :=
  .node time (copyParentNode time callers) none

mutual

/-- `recursionTree`, with the callers of the node. -/
def recursionTree (callers : List String) : TopUpTree → List PerfBottomUpStruct
  | .node time children =>
    (if 0 < time.selfTime then [clonePerfBottomUpStruct time callers] else []) ++
      recursionTrees (time.symbolName :: callers) children

/-- `recursionTree` of nodes beside each other. -/
def recursionTrees (callers : List String) : List TopUpTree → List PerfBottomUpStruct
  | [] => []
  | tree :: trees => recursionTree callers tree ++ recursionTrees callers trees

end

/-- A node is merged into the one with its symbol, which takes its times and has its
children to merge, if it has a list for them. -/
def mergeSymbol (perfBottomUpStruct : PerfBottomUpStruct)
    (bottomUpStruct : Option PerfBottomUpStruct) : PerfBottomUpStruct :=
  let merged : PerfBottomUpStruct :=
    match bottomUpStruct with
    | none => perfBottomUpStruct
    | some (.node time children frameChildren) =>
      .node
        { time with
          totalTime := time.totalTime + perfBottomUpStruct.time.totalTime
          selfTime := time.selfTime + perfBottomUpStruct.time.selfTime
          tsArray := time.tsArray ++ perfBottomUpStruct.time.tsArray }
        children frameChildren
  .node merged.time merged.children (merged.frameChildren.map fun frames =>
    frames ++ perfBottomUpStruct.children)

/-- `currentLevelData` of some nodes. -/
def currentLevelData (dataArray : List PerfBottomUpStruct) : List PerfBottomUpStruct :=
  (group PerfBottomUpStruct.symbolName mergeSymbol dataArray).map Prod.snd

/-- `mergeTreeBifurcation` of the `frameChildren` of a node, as far as some levels. -/
def mergeFrameChildren : (levels : Nat) → PerfBottomUpStruct → Option PerfBottomUpStruct
  | _, .node time children none => some (.node time children (some []))
  | 0, .node _ _ (some _) => none
  | levels + 1, .node time children (some frames) =>
    match (currentLevelData frames).mapM (mergeFrameChildren levels) with
    | none => none
    | some level => some (.node time (children ++ level) (some []))

/-- `mergeTreeBifurcation` of some nodes, as far as some levels. -/
def mergeTreeBifurcation (levels : Nat) (reverseTreeArray : List PerfBottomUpStruct) :
    Option (List PerfBottomUpStruct) :=
  (currentLevelData reverseTreeArray).mapM (mergeFrameChildren levels)

namespace PerfWorker

variable (worker : PerfWorker) (perfTime : Nat)

def frameNames (sample : PerfCountSample) : List String :=
  (worker.callChainData sample.sampleId).map fun item => item.name ++ "(" ++ item.fileName ++ ")"

/-- The children of `topUp` with one more sample. -/
def visitSample (children : List TopUpTree) (sample : PerfCountSample) : List TopUpTree :=
  visitFrames (perfTime * sample.count) sample.ts (worker.frameNames sample) children

/-- The children of `topUp`. -/
def topUp (samples : List PerfCountSample) : List TopUpTree :=
  run (worker.visitSample perfTime) [] samples

/-- `getBottomUp`, as far as some levels of `mergeTreeBifurcation`. -/
def getBottomUp (levels : Nat) (samples : List PerfCountSample) :
    Option (List PerfBottomUpStruct) :=
  mergeTreeBifurcation levels (recursionTrees [] (worker.topUp perfTime samples))

end PerfWorker

end SysAnalyzer.LogicWorker
