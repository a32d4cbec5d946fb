import SysAnalyzer.Base.TripleMap
import SysAnalyzer.Foundation.Run
import Mathlib

/-!
# The process filter

`ProcessFilter` gives threads and processes their internal numbers.  A thread
number may be used by several processes, so the numbers of the threads are kept
in a multimap; a thread that is seen before its process has no owner, and the
process that claims it first adopts it.  Creating a process creates its main
thread, and claiming a thread for a process creates the process.

`InternalTid` and `InternalPid` are 32-bit integers: a number is the row cut to
32 bits, and the largest one, `INVALID_ID`, stands for none.
-/

namespace SysAnalyzer.Filter

open Foundation
open Base

/-! ## The data cache -/

def invalidId : Nat := 2 ^ 32 - 1

/-- The cast of a row to `InternalTid` or `InternalPid`. -/
def internalId (row : Nat) : Nat := row % 2 ^ 32

/-- An internal number, unless it is `INVALID_ID`. -/
def validId (id : Nat) : Option Nat := if id = invalidId then none else some id

/-- A row of the thread table; `none` is the owner `INVALID_UINT32`. -/
structure Thread where
  internalPid : Option Nat
  tid : UInt32
  nameIndex : Nat
  startT : UInt64

structure Process where
  cmdLine : String
  startT : UInt64
  pid : UInt32

/-- The dictionary of strings, found by their hash. -/
structure DataDict where
  dataDict : List String
  dataDictInnerMap : StdMap UInt64 Nat

def DataDict.getStringIndex (hashFun : String → UInt64) (dict : DataDict)
    (str : String) : DataDict × Nat :=
  match dict.dataDictInnerMap (hashFun str) with
  | some index => (dict, index)
  | none =>
    (⟨dict.dataDict ++ [str], Function.update dict.dataDictInnerMap (hashFun str)
      (some dict.dataDict.length)⟩,
      dict.dataDict.length)

/-- The filter with the parts of the data cache that it writes to. -/
structure ProcessFilter where
  threads : List Thread
  processes : List Process
  dataDict : DataDict
  tidMappingSet : List (UInt32 × Nat)
  pidToInternalPidMap : StdMap UInt32 Nat

namespace ProcessFilter

def initial (hashFun : String → UInt64) : ProcessFilter where
  threads := [⟨some 0, 0, 0, 0⟩]
  processes := [⟨"", 0, 0⟩]
  dataDict := (DataDict.getStringIndex hashFun ⟨[], fun _ => none⟩ "").1
  tidMappingSet := [(0, 0)]
  pidToInternalPidMap := Function.update (fun _ => none) 0 (some 0)

/-- `equal_range` of the multimap, in the order of insertion. -/
def equalRange (filter : ProcessFilter) (tid : UInt32) : List Nat :=
  (filter.tidMappingSet.filter fun entry => entry.1 = tid).map Prod.snd

def modifyThread (filter : ProcessFilter) (internalTid : Nat)
    (change : Thread → Thread) : ProcessFilter :=
  { filter with threads := filter.threads.modify internalTid change }

def modifyProcess (filter : ProcessFilter) (internalPid : Nat)
    (change : Process → Process) : ProcessFilter :=
  { filter with processes := filter.processes.modify internalPid change }

def getDataIndex (hashFun : String → UInt64) (filter : ProcessFilter)
    (name : String) : ProcessFilter × Nat :=
  let indexed := filter.dataDict.getStringIndex hashFun name
  ({ filter with dataDict := indexed.1 }, indexed.2)

/-- `GetInternalTid` for a thread of any process: the newest. -/
def getInternalTid (filter : ProcessFilter) (tid : UInt32) : Option Nat :=
  (filter.equalRange tid).getLast?

/-- The loop of `GetInternalTid` for a thread of one process. -/
def findInternalTid (filter : ProcessFilter) (pid : UInt32) : List Nat → Option Nat → Option Nat
  | [], internalTid => internalTid
  | iterItid :: rest, internalTid =>
    match filter.threads[iterItid]? with
    | none => filter.findInternalTid pid rest internalTid
    | some iterThread =>
      match iterThread.internalPid with
      | none => filter.findInternalTid pid rest (some iterItid)
      | some internalPid =>
        if (filter.processes[internalPid]?).map Process.pid = some pid then some iterItid
        else filter.findInternalTid pid rest internalTid

/-- `GetInternalTid` for a thread of one process, or one without an owner. -/
def getInternalTidOf (filter : ProcessFilter) (tid pid : UInt32) : Option Nat :=
  filter.findInternalTid pid (filter.equalRange tid) none

def newThread (filter : ProcessFilter) (tid : UInt32) : ProcessFilter × Nat :=
  ({ filter with
    threads := filter.threads ++ [⟨none, tid, 0, 0⟩]
    tidMappingSet := filter.tidMappingSet ++ [(tid, internalId filter.threads.length)] },
    internalId filter.threads.length)

def newProcess (filter : ProcessFilter) (pid : UInt32) : ProcessFilter × Nat :=
  ({ filter with
    processes := filter.processes ++ [⟨"", 0, pid⟩]
    pidToInternalPidMap :=
      Function.update filter.pidToInternalPidMap pid
        (some (internalId filter.processes.length)) },
    internalId filter.processes.length)

/-- The thread that `GetOrCreateThreadWithPid` finds or creates. -/
def locateThread (filter : ProcessFilter) (tid pid : UInt32) : ProcessFilter × Nat :=
  let internalTid :=
    if pid = 0 then filter.getInternalTid tid
    else filter.getInternalTidOf tid pid
  match internalTid.bind validId with
  | some internalTid => (filter, internalTid)
  | none => filter.newThread tid

theorem pidToInternalPidMap_locateThread (filter : ProcessFilter) (tid pid : UInt32) :
    (filter.locateThread tid pid).1.pidToInternalPidMap = filter.pidToInternalPidMap := by
  unfold locateThread
  dsimp only
  split <;> rfl

def startProcess (filter : ProcessFilter) (internalPid : Nat) (startT : UInt64) : ProcessFilter :=
  filter.modifyProcess internalPid fun process =>
    if process.startT = 0 then { process with startT } else process

-- a process is created at most once, so the two calls end
mutual

def getOrCreateThreadWithPid (filter : ProcessFilter) (tid pid : UInt32) : ProcessFilter × Nat :=
  let located := filter.locateThread tid pid
  match located.1.threads[located.2]? with
  | some thread =>
    if thread.internalPid = none ∧ pid ≠ 0 then
      let created := located.1.createProcessMaybe pid thread.startT
      (created.1.modifyThread located.2 fun thread =>
        { thread with internalPid := validId created.2 },
        located.2)
    else located
  | none => located
termination_by if filter.pidToInternalPidMap pid = none then 3 else 1
decreasing_by
  rw [pidToInternalPidMap_locateThread]
  split <;> omega

def createProcessMaybe (filter : ProcessFilter) (pid : UInt32)
    (startT : UInt64) : ProcessFilter × Nat :=
  match _isNew : filter.pidToInternalPidMap pid with
  | some internalPid => (filter.startProcess internalPid startT, internalPid)
  | none =>
    let created := filter.newProcess pid
    let main := created.1.getOrCreateThreadWithPid pid pid
    (main.1.startProcess created.2 startT, created.2)
termination_by if filter.pidToInternalPidMap pid = none then 2 else 0
decreasing_by
  simp [newProcess, _isNew]

end

def updateOrCreateThreadWithNameIndex (filter : ProcessFilter)
    (timeStamp : UInt64) (tid : UInt32) (threadNameIndex : Nat) : ProcessFilter × Nat :=
  let internalTids := filter.equalRange tid
  match internalTids.getLast? with
  | some last =>
    if threadNameIndex = 0 then (filter, last)
    else
      (internalTids.foldl (fun filter internalTid =>
        filter.modifyThread internalTid fun thread =>
          { thread with nameIndex := threadNameIndex })
        filter,
        last)
  | none =>
    let created := filter.newThread tid
    (created.1.modifyThread created.2 fun thread =>
      { thread with
        nameIndex := threadNameIndex
        startT :=
          if timeStamp < thread.startT then timeStamp else thread.startT },
      created.2)

def updateOrCreateThread (filter : ProcessFilter) (timeStamp : UInt64)
    (tid : UInt32) : ProcessFilter × Nat :=
  filter.updateOrCreateThreadWithNameIndex timeStamp tid 0

section Names

variable (hashFun : String → UInt64)

def updateOrCreateThreadWithName (filter : ProcessFilter)
    (timeStamp : UInt64) (tid : UInt32) (name : String) : ProcessFilter × Nat :=
  let indexed := filter.getDataIndex hashFun name
  indexed.1.updateOrCreateThreadWithNameIndex timeStamp tid indexed.2

def updateOrCreateProcessWithName (filter : ProcessFilter) (pid : UInt32)
    (name : String) : ProcessFilter × Nat :=
  let created := filter.createProcessMaybe pid 0
  let named :=
    created.1.modifyProcess created.2 fun process =>
      if name ≠ "" ∧ process.cmdLine ≠ name then { process with cmdLine := name }
      else process
  match (named.getInternalTidOf pid pid).bind validId, named.processes[created.2]? with
  | some internalTid, some process =>
    let indexed := named.getDataIndex hashFun process.cmdLine
    (indexed.1.modifyThread internalTid fun thread =>
      { thread with nameIndex := indexed.2 },
      created.2)
  | _, _ => (named, created.2)

def updateOrCreateThreadWithPidAndName (filter : ProcessFilter)
    (tid pid : UInt32) (name : String) : ProcessFilter × Nat :=
  let located := filter.getOrCreateThreadWithPid tid pid
  let indexed := located.1.getDataIndex hashFun name
  let named :=
    indexed.1.modifyThread located.2 fun thread => { thread with nameIndex := indexed.2 }
  -- the main thread has the name of its process
  if tid = pid then ((named.updateOrCreateProcessWithName hashFun pid name).1, located.2)
  else (named, located.2)

def getInternalPid (filter : ProcessFilter) (pid : UInt32) : Option Nat :=
  filter.pidToInternalPidMap pid

def getOrCreateInternalPid (filter : ProcessFilter) (timeStamp : UInt64)
    (pid : UInt32) : ProcessFilter × Nat :=
  match (filter.getInternalPid pid).bind validId with
  | some internalPid => (filter, internalPid)
  | none => filter.createProcessMaybe pid timeStamp

end Names

end ProcessFilter

/-- The operations that create threads and processes. -/
inductive ProcessCall where
  | updateOrCreateThread (timeStamp : UInt64) (tid : UInt32)
  | updateOrCreateThreadWithName (timeStamp : UInt64) (tid : UInt32)
    (name : String)
  | updateOrCreateThreadWithPidAndName (tid pid : UInt32) (name : String)
  | getOrCreateThreadWithPid (tid pid : UInt32)
  | updateOrCreateProcessWithName (pid : UInt32) (name : String)
  | getOrCreateInternalPid (timeStamp : UInt64) (pid : UInt32)

/-- One operation and what it returns. -/
def ProcessFilter.perform (hashFun : String → UInt64)
    (filter : ProcessFilter) : ProcessCall → ProcessFilter × Nat
  | .updateOrCreateThread timeStamp tid => filter.updateOrCreateThread timeStamp tid
  | .updateOrCreateThreadWithName timeStamp tid name =>
    filter.updateOrCreateThreadWithName hashFun timeStamp tid name
  | .updateOrCreateThreadWithPidAndName tid pid name =>
    filter.updateOrCreateThreadWithPidAndName hashFun tid pid name
  | .getOrCreateThreadWithPid tid pid => filter.getOrCreateThreadWithPid tid pid
  | .updateOrCreateProcessWithName pid name => filter.updateOrCreateProcessWithName hashFun pid name
  | .getOrCreateInternalPid timeStamp pid => filter.getOrCreateInternalPid timeStamp pid

def ProcessFilter.step (hashFun : String → UInt64) (filter : ProcessFilter)
    (call : ProcessCall) : ProcessFilter :=
  (filter.perform hashFun call).1

end SysAnalyzer.Filter
