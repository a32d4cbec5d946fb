import SysAnalyzer.Foundation.PropertyMap
import SysAnalyzer.Foundation.Run
import SysAnalyzer.LogicWorker.MergeByIndex

/-!
# Call trees of file system, IO and page fault samples

`freshCurrentCallChains` merges the call chains of samples into trees, as the
call trees of perf do.  A root is selected by the digits of a symbol, a path and
a process one behind the other, and a frame is merged into every child with the
same address or with the same symbol and path.
-/

namespace SysAnalyzer.LogicWorker

open Foundation List

/-- `FileCallChain`, with what a merge reads of it; a missing id is `none`. -/
structure FileCallChain where
  ip : String := ""
  symbolsId : Option Int := some 0
  pathId : Option Int := some 0

structure FileSample where
  type : Int
  callChainId : Int
  dur : Nat
  pid : Int
  tid : Int
  threadName : String
  processName : String
  ts : Int

/-- `FileMerageBean`, with its initial values and without the children. -/
structure FileMerageBean where
  symbolName : String := ""
  symbol : String := ""
  ip : String := ""
  symbolsId : Option Int := some 0
  pathId : Option Int := some 0
  processName : String := ""
  selfDur : Nat := 0
  dur : Nat := 0
  count : Nat := 0
  pid : Int := 0
  canCharge : Bool := true
  tsArray : List Int := []
  durArray : List Nat := []

abbrev FileTree := MergeTree FileMerageBean

namespace FileMerageBean

/-- A node without a process takes the values of a frame. -/
def named (currentNode : FileMerageBean) (callChain : FileCallChain)
    (sample : FileSample) : FileMerageBean :=
  if currentNode.processName = "" then
    { currentNode with
      ip := callChain.ip
      pid := sample.pid
      canCharge := true
      pathId := callChain.pathId
      symbolsId := callChain.symbolsId
      processName :=
        if sample.processName = "" then "Process(" ++ toString sample.pid ++ ")"
        else sample.processName }
  else currentNode

def merageCallChainSample (sample : FileSample) (currentNode : FileMerageBean)
    (callChain : FileCallChain) (isEnd : Bool) : FileMerageBean :=
  let node := currentNode.named callChain sample
  { node with
    selfDur := if isEnd then node.selfDur + sample.dur else node.selfDur
    dur := node.dur + sample.dur
    count := node.count + 1
    tsArray := node.tsArray ++ [sample.ts]
    durArray := node.durArray ++ [sample.dur] }

def isFrame (child : FileMerageBean) (callChain : FileCallChain) : Bool :=
  child.ip == callChain.ip || (child.symbolsId != none && child.symbolsId == callChain.symbolsId &&
    child.pathId == callChain.pathId)

end FileMerageBean

open FileMerageBean

/-- `currentDataType`; it is empty before a type is set. -/
inductive FileDataType where
  | fileSystem
  | io
  | virtualMemory
  | empty

/-- `FILE_TYPE_MAP`, `DISKIO_TYPE_MAP` and `VM_TYPE_MAP`. -/
def FileDataType.typeMap : FileDataType → List (Int × String)
  | .fileSystem => [(0, "OPEN"), (1, "CLOSE"), (2, "READ"), (3, "WRITE")]
  | .io =>
    [(1, "DATA_READ"), (2, "DATA_WRITE"), (3, "METADATA_READ"),
      (4, "METADATA_WRITE"), (5, "PAGE_IN"), (6, "PAGE_OUT")]
  | .virtualMemory =>
    [(1, "File Backed In"), (2, "Page Cache Hit"), (3, "Swap From Zram"),
      (4, "Swap From Disk"), (5, "Zero Fill Page"), (6, "Zero FAKE Page"),
      (7, "Copy On Write")]
  | .empty => []

/-- `FileSystemCallTreeHandler` and the call chains of the data cache. -/
structure FileHandler where
  currentDataType : FileDataType
  eBpfCallChainsMap : Int → List FileCallChain

namespace FileHandler

variable (handler : FileHandler)

def createThreadAndType (sample : FileSample) : List FileCallChain :=
  let typeCallChain : FileCallChain :=
    { ip :=
        (handler.currentDataType.typeMap.lookup sample.type).getD "UNKNOWN"
      symbolsId := some sample.type
      pathId := some (-1) }
  let threadCallChain : FileCallChain :=
    { ip :=
        (if sample.threadName = "" then "Thread" else sample.threadName) ++
          "-" ++ toString sample.tid
      symbolsId := some sample.tid
      pathId := some (-1) }
  typeCallChain :: threadCallChain :: handler.eBpfCallChainsMap sample.callChainId

def merageChildrenByIndex (currentNode : FileTree)
    (callChainDataList : List FileCallChain) (index : Nat)
    (sample : FileSample) (isTopDown : Bool) : FileTree :=
  mergeByIndex isFrame {} (merageCallChainSample sample) callChainDataList
    isTopDown callChainDataList.length currentNode index

variable (isTopDown : Bool)

def topFrame (sample : FileSample) : FileCallChain :=
  let callChains := handler.createThreadAndType sample
  callChains.getD (topIndex isTopDown callChains) {}

def idText : Option Int → String
  | none => "null"
  | some id => toString id

/-- The key of a root in `currentTreeMapData`. -/
def rootKey (sample : FileSample) : String :=
  let top := handler.topFrame isTopDown sample
  idText top.symbolsId ++ "" ++ idText top.pathId ++ toString sample.pid

def mergeSample (sample : FileSample) (root : Option FileTree) : FileTree :=
  let rootNode := root.getD (.node {} [])
  let callChains := handler.createThreadAndType sample
  merageChildrenByIndex (.node (merageCallChainSample sample rootNode.data
    (handler.topFrame isTopDown sample) false)
    rootNode.children)
    callChains (topIndex isTopDown callChains) sample isTopDown

/-- A sample is added to `currentTreeMapData`. -/
def addSample (treeMap : List (String × FileTree)) (sample : FileSample) :
    List (String × FileTree) :=
  if (handler.createThreadAndType sample).length = 2 then treeMap
  else upsert (handler.rootKey isTopDown sample) (handler.mergeSample isTopDown sample) treeMap

/-- `currentTreeMapData` after some samples. -/
def currentTreeMapData (samples : List FileSample) : List (String × FileTree) :=
  run (handler.addSample isTopDown) [] samples

def addRoot (merageData : FileTree) (process : Option FileTree) : FileTree :=
  match process with
  | none =>
    .node
      { symbolName := merageData.data.processName
        symbol := merageData.data.processName
        canCharge := false
        dur := merageData.data.dur
        count := merageData.data.count
        tsArray := merageData.data.tsArray
        durArray := merageData.data.durArray }
      [merageData]
  | some (.node data children) =>
    .node
      { data with
        dur := data.dur + merageData.data.dur
        count := data.count + merageData.data.count
        tsArray := data.tsArray ++ merageData.data.tsArray
        durArray := data.durArray ++ merageData.data.durArray }
      (children ++ [merageData])

def roots (samples : List FileSample) : List FileTree :=
  objectValues (handler.currentTreeMapData isTopDown samples)

/-- `freshCurrentCallChains`, with the nodes of the processes. -/
def freshCurrentCallChains (samples : List FileSample) : List FileTree :=
  objectValues <| group (fun merageData : FileTree => toString merageData.data.pid) addRoot
    (handler.roots isTopDown samples)

variable {handler isTopDown}

def hasCallChain (handler : FileHandler) (sample : FileSample) : Bool :=
  !(handler.eBpfCallChainsMap sample.callChainId).isEmpty

theorem length_createThreadAndType (sample : FileSample) :
    (handler.createThreadAndType sample).length =
      (handler.eBpfCallChainsMap sample.callChainId).length + 2 := rfl

theorem mergeSample_eq {sample : FileSample} (root : Option FileTree) :
    handler.mergeSample isTopDown sample root = .node
      (merageCallChainSample sample (root.getD (.node {} [])).data
        (handler.topFrame isTopDown sample) false)
      (mergeChain isFrame {} (merageCallChainSample sample)
        (directed isTopDown (handler.createThreadAndType sample)).tail
        (root.getD (.node {} [])).children) := by
  have long := handler.length_createThreadAndType sample
  unfold mergeSample merageChildrenByIndex
  dsimp only
  rw [topIndex_eq_indexOf, mergeByIndex_eq _ _ _ _ _ _ 0 (by omega) (by omega), Nat.zero_add,
    drop_one]

theorem tail_directed_ne_nil (isTopDown : Bool) (sample : FileSample) :
    (directed isTopDown (handler.createThreadAndType sample)).tail.isEmpty = false := by
  have length := length_directed isTopDown (handler.createThreadAndType sample)
  rw [length_createThreadAndType] at length
  rw [isEmpty_eq_false_iff, ← length_pos_iff, length_tail]
  omega

theorem addSample_eq (treeMap : List (String × FileTree)) (sample : FileSample) :
    handler.addSample isTopDown treeMap sample = if handler.hasCallChain sample then
      upsert (handler.rootKey isTopDown sample) (handler.mergeSample isTopDown sample) treeMap
      else
        treeMap := by
  unfold addSample hasCallChain
  rw [length_createThreadAndType]
  cases handler.eBpfCallChainsMap sample.callChainId with
  | nil => rfl
  | cons frame rest => simp

theorem currentTreeMapData_eq (samples : List FileSample) :
    handler.currentTreeMapData isTopDown samples =
      group (handler.rootKey isTopDown) (handler.mergeSample isTopDown)
        (samples.filter handler.hasCallChain) := by
  unfold currentTreeMapData run group
  rw [foldl_filter]
  congr 1
  ext1 treeMap
  ext1 sample
  exact addSample_eq treeMap sample

end FileHandler

end SysAnalyzer.LogicWorker
