import SysAnalyzer.Base.TripleMap
import SysAnalyzer.Base.TsCommon
import SysAnalyzer.Foundation.PropertyMap
import SysAnalyzer.Parser.BytraceParser

/-!
# The task pool filter

A task of a task pool is known by its process and its execute id.  Its
allocation, its execution and its return are three events of the trace, and
whichever of them comes first creates the row of the task; the others fill in
their columns.  `IpidExecuteMap_` leads from a task to its row and answers
`INVALID_INT32` where there is none.

An event is read from the text of a slice; the threads and slices that the
filter looks at are those of the moment and come with the call.  What throws in
the source has no result here.
-/

namespace SysAnalyzer.Filter

open Foundation
open Base
open SysAnalyzer.Parser (strToInt)

def invalidInt32 : UInt32 := 0x7fffffff

structure TaskPoolRow where
  allocationTaskRow : UInt32
  executeTaskRow : UInt32
  returnTaskRow : UInt32
  allocationItid : UInt32
  executeItid : UInt32
  returnItid : UInt32
  executeId : UInt32
  priority : UInt32
  executeState : UInt32
  returnState : UInt32
  timeoutRow : UInt32

abbrev TaskPoolInfo := List TaskPoolRow

namespace TaskPoolInfo

/-- `AppendAllocationTaskData`; the row it answers is the last one. -/
def appendAllocationTaskData (table : TaskPoolInfo)
    (allocationTaskRow allocationItid executeId priority executeState : UInt32) : TaskPoolInfo :=
  table ++
    [{ allocationTaskRow
       executeTaskRow := invalidInt32
       returnTaskRow := invalidInt32
       allocationItid
       executeItid := invalidInt32
       returnItid := invalidInt32
       executeId
       priority
       executeState
       returnState := invalidInt32
       timeoutRow := invalidInt32 }]

def appendExecuteTaskData (table : TaskPoolInfo)
    (executeTaskRow executeItid executeId : UInt32) : TaskPoolInfo :=
  table ++
    [{ allocationTaskRow := invalidInt32
       executeTaskRow
       returnTaskRow := invalidInt32
       allocationItid := invalidInt32
       executeItid
       returnItid := invalidInt32
       executeId
       priority := invalidInt32
       executeState := invalidInt32
       returnState := invalidInt32
       timeoutRow := invalidInt32 }]

def appendReturnTaskData (table : TaskPoolInfo)
    (returnTaskRow returnItid executeId returnState : UInt32) : TaskPoolInfo :=
  table ++
    [{ allocationTaskRow := invalidInt32
       executeTaskRow := invalidInt32
       returnTaskRow
       allocationItid := invalidInt32
       executeItid := invalidInt32
       returnItid
       executeId
       priority := invalidInt32
       executeState := invalidInt32
       returnState
       timeoutRow := invalidInt32 }]

/--
The guard of the `Update*` functions, which lets the place behind the last row
pass; nothing is changed there, where the source writes outside of its columns.
-/
def updateRow (table : TaskPoolInfo) (index : UInt32)
    (change : TaskPoolRow → TaskPoolRow) : TaskPoolInfo :=
  if index.toNat ≤ table.length then table.modify index.toNat change else table

def updateAllocationTaskData (table : TaskPoolInfo)
    (index allocationTaskRow allocationItid priority executeState : UInt32) : TaskPoolInfo :=
  table.updateRow index fun row =>
    { row with allocationTaskRow, allocationItid, priority, executeState }

def updateExecuteTaskData (table : TaskPoolInfo)
    (index executeTaskRow executeItid : UInt32) : TaskPoolInfo :=
  table.updateRow index fun row => { row with executeTaskRow, executeItid }

def updateReturnTaskData (table : TaskPoolInfo)
    (index returnTaskRow returnItid returnState : UInt32) : TaskPoolInfo :=
  table.updateRow index fun row =>
    { row with returnTaskRow, returnItid, returnState }

/-- `AppendTimeoutRow` of the table. -/
def appendTimeoutRow (table : TaskPoolInfo) (index timeoutRow : UInt32) : TaskPoolInfo :=
  table.updateRow index fun row => { row with timeoutRow }

end TaskPoolInfo

/-- What the filter looks at: the threads of the slices, the processes of the threads. -/
structure TraceDataCache where
  callIds : List UInt32
  internalPids : List UInt32

structure TaskPoolFilter where
  taskPoolData : TaskPoolInfo
  ipidExecuteMap : DoubleMap UInt32 UInt32 UInt32
  timeoutMap : StdMap UInt32 UInt32

/-- `std::unordered_map::emplace`: an entry that is already there stays. -/
def emplace {α β : Type*} [DecidableEq α] (map : StdMap α β) (key : α) (value : β) : StdMap α β :=
  match map key with
  | some _ => map
  | none => Function.update map key (some value)

namespace TaskPoolFilter

def initial : TaskPoolFilter :=
  ⟨[], .empty invalidInt32, fun _ => none⟩

def getIpId (traceDataCache : TraceDataCache) (index : UInt32) : UInt32 :=
  match traceDataCache.callIds[index.toNat]? with
  | none => invalidUint32
  | some itid =>
    match traceDataCache.internalPids[itid.toNat]? with
    | none => invalidUint32
    | some internalPid => internalPid

def checkTheSameTask (filter : TaskPoolFilter)
    (traceDataCache : TraceDataCache) (executeId index : UInt32) : UInt32 :=
  filter.ipidExecuteMap.find (getIpId traceDataCache index) executeId

/-- `PartingString`: the parts between delimiters that are not empty. -/
def partingString (text : List Char) (delimiter : Char) : List (List Char) :=
  (text.splitOn delimiter).filter fun part => !part.isEmpty

def taskPoolFieldSegmentation (taskPoolStr : List Char) : StdMap String String :=
  (partingString taskPoolStr ',').foldl (fun args field =>
      match partingString field ':' with
      | [] => emplace args "" ""
      | key :: values =>
        emplace args (String.ofList key) (String.ofList (values.getLast?.getD [])))
    fun _ => none

def updateAssignData (filter : TaskPoolFilter)
    (traceDataCache : TraceDataCache) (args : StdMap String String)
    (index : UInt32) : Option (TaskPoolFilter × Bool) :=
  match traceDataCache.callIds[index.toNat]? with
  | none => some (filter, false)
  | some allocItid => do
    let executeId ← (args " executeId ").bind strToInt
    let priority ← (args " priority ").bind strToInt
    let executeState ← (args " executeState ").bind strToInt
    let returnValue := filter.checkTheSameTask traceDataCache executeId index
    if returnValue = invalidInt32 then
      let taskIndex := UInt32.ofNat filter.taskPoolData.length
      some
        ({ filter with
            taskPoolData :=
              filter.taskPoolData.appendAllocationTaskData index allocItid
                executeId priority executeState
            ipidExecuteMap :=
              filter.ipidExecuteMap.insert (getIpId traceDataCache index)
                executeId taskIndex },
          true)
    else
      some
        ({ filter with
            taskPoolData :=
              filter.taskPoolData.updateAllocationTaskData returnValue index
                allocItid priority executeState },
          true)

/-- `timeoutMap_` with the latest row that a thread has executed. -/
def noteTimeout (timeoutMap : StdMap UInt32 UInt32) (itid row : UInt32) : StdMap UInt32 UInt32 :=
  let emplaced := emplace timeoutMap itid row
  match emplaced itid with
  | some last =>
    if last < row then Function.update emplaced itid (some row) else emplaced
  | none => emplaced

def updateExecuteData (filter : TaskPoolFilter)
    (traceDataCache : TraceDataCache) (args : StdMap String String)
    (index : UInt32) : Option (TaskPoolFilter × Bool) :=
  match traceDataCache.callIds[index.toNat]? with
  | none => some (filter, false)
  | some executeItid => do
    let executeId ← (args " executeId ").bind strToInt
    let returnValue := filter.checkTheSameTask traceDataCache executeId index
    if returnValue = invalidInt32 then
      let taskIndex := UInt32.ofNat filter.taskPoolData.length
      some
        ({ filter with
            taskPoolData :=
              filter.taskPoolData.appendExecuteTaskData index executeItid
                executeId
            ipidExecuteMap :=
              filter.ipidExecuteMap.insert (getIpId traceDataCache index)
                executeId taskIndex
            timeoutMap :=
              noteTimeout filter.timeoutMap executeItid taskIndex },
          true)
    else
      some
        ({ filter with
            taskPoolData :=
              filter.taskPoolData.updateExecuteTaskData returnValue index
                executeItid
            timeoutMap :=
              noteTimeout filter.timeoutMap executeItid returnValue },
          true)

def updateReturnData (filter : TaskPoolFilter)
    (traceDataCache : TraceDataCache) (args : StdMap String String)
    (index : UInt32) : Option (TaskPoolFilter × Bool) :=
  match traceDataCache.callIds[index.toNat]? with
  | none => some (filter, false)
  | some returnItid => do
    let executeId ← (args " executeId ").bind strToInt
    let returnStr ← args " performResult "
    let returnState : UInt32 := if returnStr ≠ " Successful" then 0 else 1
    let returnValue := filter.checkTheSameTask traceDataCache executeId index
    if returnValue = invalidInt32 then
      let taskIndex := UInt32.ofNat filter.taskPoolData.length
      some
        ({ filter with
            taskPoolData :=
              filter.taskPoolData.appendReturnTaskData index returnItid
                executeId returnState
            ipidExecuteMap :=
              filter.ipidExecuteMap.insert (getIpId traceDataCache index)
                executeId taskIndex },
          true)
    else
      some
        ({ filter with
            taskPoolData :=
              filter.taskPoolData.updateReturnTaskData returnValue index
                returnItid returnState },
          true)

def appendTimeoutRow (filter : TaskPoolFilter) (traceDataCache : TraceDataCache) (index : UInt32) :
    Option (TaskPoolFilter × Bool) :=
  match traceDataCache.callIds[index.toNat]? with
  | none => some (filter, false)
  | some timeoutItid => do
    let row ← filter.timeoutMap timeoutItid
    some
      ({ filter with
          taskPoolData := filter.taskPoolData.appendTimeoutRow row index },
        true)

def startWith (text start : List Char) : Bool :=
  start.isPrefixOf text

def targetStr : List Char := "H:Task ".toList
def allocationStr : List Char := "H:Task Allocation: ".toList
def executeStr : List Char := "H:Task Perform: ".toList
def returnStr : List Char := "H:Task PerformTask End: ".toList
def timeoutStr : List Char := "H:Thread Timeout Exit".toList

def argsBehind (taskPoolStr start : List Char) : StdMap String String :=
  taskPoolFieldSegmentation (taskPoolStr.drop start.length)

def taskPoolEvent (filter : TaskPoolFilter) (traceDataCache : TraceDataCache)
    (taskPoolStr : List Char) (index : UInt32) : Option (TaskPoolFilter × Bool) :=
  if startWith taskPoolStr targetStr && startWith taskPoolStr allocationStr then
    filter.updateAssignData traceDataCache (argsBehind taskPoolStr allocationStr) index
  else if startWith taskPoolStr targetStr && startWith taskPoolStr executeStr then
    filter.updateExecuteData traceDataCache (argsBehind taskPoolStr executeStr) index
  else if startWith taskPoolStr targetStr && startWith taskPoolStr returnStr then
    filter.updateReturnData traceDataCache (argsBehind taskPoolStr returnStr) index
  else if startWith taskPoolStr timeoutStr then
    filter.appendTimeoutRow traceDataCache index
  else some (filter, false)

end TaskPoolFilter

end SysAnalyzer.Filter
