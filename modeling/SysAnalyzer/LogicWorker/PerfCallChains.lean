import SysAnalyzer.Foundation.MergeTrie
import SysAnalyzer.Foundation.PropertyMap
import SysAnalyzer.LogicWorker.MergeByIndex

/-!
# Call trees of perf samples

`freshPerfCallchains` merges the call chains of samples into trees.  A thread and
a state are put in front of a chain, and its first or last frame selects a root
in `currentTreeMapData`, by its name with the process behind it.  The roots are
then collected under one node for each process.
-/

namespace SysAnalyzer.LogicWorker

open Foundation List

/-- `PerfCallChain`, with what a merge reads of it. -/
structure PerfCallChain where
  name : String := ""
  fileName : String := ""
  path : String := ""
  vaddrInFile : Int := 0
  canCharge : Bool := true

/-- `PerfCountSample`; the times in `ts` are split already. -/
structure PerfCountSample where
  sampleId : Int
  tid : Int
  count : Nat
  threadState : String
  pid : Int
  ts : List Int
  deriving DecidableEq

/-- `PerfThread`; a name that is missing is empty. -/
structure PerfThread where
  threadName : String
  processName : String

/-- `PerfCallChainMerageData`, with its initial values and without the children. -/
structure PerfCallChainMerageData where
  symbolName : String := ""
  symbol : String := ""
  libName : String := ""
  path : String := ""
  selfDur : Nat := 0
  dur : Nat := 0
  count : Nat := 0
  tid : Int := 0
  pid : Int := 0
  canCharge : Bool := true
  vaddrInFile : Int := 0
  tsArray : List Int := []

abbrev PerfTree := MergeTree PerfCallChainMerageData

namespace PerfCallChainMerageData

/-- A node without a name takes those of a frame. -/
def named (currentNode : PerfCallChainMerageData) (callChain : PerfCallChain)
    (sample : PerfCountSample) : PerfCallChainMerageData :=
  if currentNode.symbolName = "" then
    { currentNode with
      symbol :=
        callChain.name ++ "  " ++
          if callChain.fileName = "" then "" else "(" ++ callChain.fileName ++ ")"
      symbolName := callChain.name
      pid := sample.pid
      tid := sample.tid
      libName := callChain.fileName
      vaddrInFile := callChain.vaddrInFile
      canCharge := callChain.canCharge
      path := if callChain.path = "" then currentNode.path else callChain.path }
  else currentNode

def merageCallChainSample (sample : PerfCountSample)
    (currentNode : PerfCallChainMerageData) (callChain : PerfCallChain)
    (isEnd : Bool) : PerfCallChainMerageData :=
  let node := currentNode.named callChain sample
  { node with
    selfDur := if isEnd then node.selfDur + sample.count else node.selfDur
    dur := node.dur + sample.count
    count := node.count + sample.count
    tsArray := node.tsArray ++ sample.ts }

def isFrame (child : PerfCallChainMerageData) (callChain : PerfCallChain) : Bool :=
  child.symbolName == callChain.name

end PerfCallChainMerageData

open PerfCallChainMerageData

/-- The threads and call chains that `ProcedureLogicWorkerPerf` has loaded. -/
structure PerfWorker where
  threadData : Int → PerfThread
  callChainData : Int → List PerfCallChain

namespace PerfWorker

variable (worker : PerfWorker)

def threadFrameName (tid : Int) : String :=
  if (worker.threadData tid).threadName = "" then "Thread" ++ "(" ++ toString tid ++ ")"
  else (worker.threadData tid).threadName

def addOtherCallchainsData (countSample : PerfCountSample)
    (list : List PerfCallChain) : List PerfCallChain :=
  let threadCallChain : PerfCallChain :=
    { name := worker.threadFrameName countSample.tid
      canCharge := false }
  let stateName :=
    if countSample.threadState = "" then "Unknown State"
    else countSample.threadState
  let threadStateCallChain : PerfCallChain :=
    { name := stateName
      fileName := if stateName = "-" then "Unknown Thread State" else ""
      canCharge := false }
  threadCallChain :: threadStateCallChain :: list

def perfCallChains (perfSample : PerfCountSample) : List PerfCallChain :=
  worker.addOtherCallchainsData perfSample (worker.callChainData perfSample.sampleId)

def hasCallChain (perfSample : PerfCountSample) : Bool :=
  !(worker.callChainData perfSample.sampleId).isEmpty

def mergeChildrenByIndex (currentNode : PerfTree)
    (callChainDataList : List PerfCallChain) (index : Nat)
    (sample : PerfCountSample) (isTopDown : Bool) : PerfTree :=
  mergeByIndex isFrame {} (merageCallChainSample sample) callChainDataList
    isTopDown callChainDataList.length currentNode index

variable (isTopDown : Bool)

def topFrame (perfSample : PerfCountSample) : PerfCallChain :=
  let chains := worker.perfCallChains perfSample
  chains.getD (topIndex isTopDown chains) {}

/-- The key of a root in `currentTreeMapData`. -/
def rootKey (perfSample : PerfCountSample) : String :=
  (worker.topFrame isTopDown perfSample).name ++ toString perfSample.pid

def mergeSample (perfSample : PerfCountSample) (root : Option PerfTree) : PerfTree :=
  let perfRootNode := root.getD (.node {} [])
  let chains := worker.perfCallChains perfSample
  mergeChildrenByIndex (.node (merageCallChainSample perfSample perfRootNode.data
    (worker.topFrame isTopDown perfSample) false)
    perfRootNode.children)
    chains (topIndex isTopDown chains) perfSample isTopDown

/-- `currentTreeMapData` after some samples. -/
def currentTreeMapData (perfCountSamples : List PerfCountSample) : List (String × PerfTree) :=
  perfCountSamples.foldl (fun treeMap perfSample =>
    if worker.hasCallChain perfSample then
      upsert (worker.rootKey isTopDown perfSample)
        (worker.mergeSample isTopDown perfSample) treeMap
    else treeMap)
    []

def processNodeName (merageData : PerfCallChainMerageData) : String :=
  (if (worker.threadData merageData.tid).processName = "" then
    "Process"
    else (worker.threadData merageData.tid).processName) ++
    "(" ++ toString merageData.pid ++ ")"

def addRoot (merageData : PerfTree) (process : Option PerfTree) : PerfTree :=
  match process with
  | none =>
    .node
      { symbolName := worker.processNodeName merageData.data
        symbol := worker.processNodeName merageData.data
        tid := merageData.data.tid
        canCharge := false
        dur := merageData.data.dur
        count := merageData.data.dur
        tsArray := merageData.data.tsArray }
      [merageData]
  | some (.node data children) =>
    .node
      { data with
        dur := data.dur + merageData.data.dur
        count := data.count + merageData.data.dur
        tsArray := data.tsArray ++ merageData.data.tsArray }
      (children ++ [merageData])

def rootMerageMap (roots : List PerfTree) : List (String × PerfTree) :=
  group (fun merageData => toString merageData.data.pid) worker.addRoot roots

def roots (perfCountSamples : List PerfCountSample) : List PerfTree :=
  objectValues (worker.currentTreeMapData isTopDown perfCountSamples)

/-- `freshPerfCallchains`, with the nodes of the processes. -/
def freshPerfCallchains (perfCountSamples : List PerfCountSample) : List PerfTree :=
  objectValues (worker.rootMerageMap (worker.roots isTopDown perfCountSamples))

variable {worker isTopDown}

theorem perfCallChains_eq (perfSample : PerfCountSample) :
    ∃ thread state, worker.perfCallChains perfSample =
      thread :: state :: worker.callChainData perfSample.sampleId :=
  ⟨_, _, rfl⟩

variable {perfSample : PerfCountSample}

theorem length_perfCallChains (chained : worker.hasCallChain perfSample = true) :
    3 ≤ (worker.perfCallChains perfSample).length := by
  rcases worker.perfCallChains_eq perfSample with ⟨thread, state, chains⟩
  rw [chains, length_cons, length_cons]
  have nonempty : worker.callChainData perfSample.sampleId ≠ [] := by
    simpa [hasCallChain] using chained
  have positive := List.length_pos_iff.2 nonempty
  omega

theorem directed_perfCallChains (isTopDown : Bool)
    (chained : worker.hasCallChain perfSample = true) :
    ∃ second rest, directed isTopDown (worker.perfCallChains perfSample) =
      worker.topFrame isTopDown perfSample :: second :: rest := by
  have long := length_perfCallChains chained
  have length := length_directed isTopDown (worker.perfCallChains perfSample)
  have first : (directed isTopDown (worker.perfCallChains perfSample))[0]? =
    some (worker.topFrame isTopDown perfSample) := by
    rw [← getElem?_indexOf (by omega), ← topIndex_eq_indexOf, topFrame, getD_eq_getElem?_getD]
    have within : topIndex isTopDown (worker.perfCallChains perfSample) <
      (worker.perfCallChains perfSample).length := by
      cases isTopDown <;> simp [topIndex] <;> omega
    rw [List.getElem?_eq_getElem within]
    rfl
  cases chain : directed isTopDown (worker.perfCallChains perfSample) with
  | nil =>
    rw [chain, length_nil] at length
    omega
  | cons top others =>
    rw [chain] at first length
    cases others with
    | nil =>
      rw [length_singleton] at length
      omega
    | cons second rest =>
      have same : top = worker.topFrame isTopDown perfSample := by simpa using first
      exact ⟨second, rest, by rw [same]⟩

theorem mergeSample_eq (chained : worker.hasCallChain perfSample = true) (root : Option PerfTree) :
    worker.mergeSample isTopDown perfSample root = .node
      (merageCallChainSample perfSample (root.getD (.node {} [])).data
        (worker.topFrame isTopDown perfSample) false)
      (mergeChain isFrame {} (merageCallChainSample perfSample)
        (directed isTopDown (worker.perfCallChains perfSample)).tail
        (root.getD (.node {} [])).children) := by
  have long := length_perfCallChains chained
  unfold mergeSample mergeChildrenByIndex
  dsimp only
  rw [topIndex_eq_indexOf, mergeByIndex_eq _ _ _ _ _ _ 0 (by omega) (by omega), Nat.zero_add,
    drop_one]

theorem currentTreeMapData_eq (perfCountSamples : List PerfCountSample) :
    worker.currentTreeMapData isTopDown perfCountSamples =
      group (worker.rootKey isTopDown) (worker.mergeSample isTopDown)
        (perfCountSamples.filter worker.hasCallChain) := by
  unfold currentTreeMapData group
  rw [foldl_filter]

end PerfWorker

end SysAnalyzer.LogicWorker
