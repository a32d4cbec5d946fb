import SysAnalyzer.Filter.BinderFilter
import SysAnalyzer.Filter.ProcessFilter

/-!
# Arguments of slices

A slice may have a set of arguments.  The set has a number, which the entry of
the slice on its stack carries and which `SetArgSetId` writes into the table.
`AddArgs` looks for an incomplete slice of a thread by category and name, and
answers its row with the number of its set, or the invalid row.

The filters that take part are kept together here, with the threads of the
trace: an operation names a thread by its number in the trace, and the process
filter answers the internal one.  What the sets hold is left out, and so is the
column that `SetArgSetId` writes; the calls themselves are recorded.
-/

namespace SysAnalyzer.Filter

open Base (StdMap TripleMap)
open Foundation

/-- `ArgsSet`; of its values, only whether there are any. -/
structure ArgsSet where
  hasValues : Bool := false
  inserted : Bool := false
  argSetId : UInt32 := 0

/-- A call of `SetArgSetId` on the callstack table. -/
structure ArgSetWrite where
  row : Nat
  argSetId : UInt32

/-- The sets so far, and those of the rows and of the entries of the stacks. -/
structure SliceArgs where
  count : UInt32
  sliceRowToArgsSetId : StdMap UInt32 UInt32
  -- `SliceData::argSetId`, of the entry that holds the row
  entryArgSetId : Nat → UInt32

namespace SliceArgs

def initial : SliceArgs := ⟨0, fun _ => none, fun _ => invalidUint32⟩

/-- `NewArgs` for a row: the number of the set, which the row remembers. -/
def newArgs (sliceArgs : SliceArgs) (row : Nat) : UInt32 × SliceArgs :=
  (sliceArgs.count, { sliceArgs with
    count := sliceArgs.count + 1
    sliceRowToArgsSetId :=
      Function.update sliceArgs.sliceRowToArgsSetId (UInt32.ofNat row)
        (some sliceArgs.count) })

def setEntry (sliceArgs : SliceArgs) (row : Nat) (argSetId : UInt32) : SliceArgs :=
  { sliceArgs with
    entryArgSetId := Function.update sliceArgs.entryArgSetId row argSetId }

end SliceArgs

/-- The filters that slices and transactions go through. -/
structure StreamFilters where
  processFilter : ProcessFilter
  sliceFilter : SliceFilter
  sliceArgs : SliceArgs
  asyncEventMap : TripleMap UInt32 UInt64 UInt64 UInt64
  asyncEventFilterMap : StdMap UInt64 Nat
  asyncEventSize : UInt64
  transReplyWaitingReply : Finset UInt64
  transNeedReply : StdMap UInt64 UInt32
  transReplyFilter : StdMap UInt32 UInt32
  asyncBinderEvents : StdMap UInt64 ArgsSet

/-- What an operation answers and leaves, and the sets that it placed. -/
structure Outcome (Answer : Type) where
  answer : Answer
  filters : StreamFilters
  writes : List ArgSetWrite

namespace StreamFilters

def initial (hashFun : String → UInt64) : StreamFilters where
  processFilter := .initial hashFun
  sliceFilter := .initial
  sliceArgs := .initial
  asyncEventMap := TripleMap.empty invalidUint64
  asyncEventFilterMap _ := none
  asyncEventSize := 0
  transReplyWaitingReply := ∅
  transNeedReply _ := none
  transReplyFilter _ := none
  asyncBinderEvents _ := none

variable (filters : StreamFilters)

/-! ## Slices with arguments -/

/--
`StartSlice`: the answer is the row, `none` for `SIZE_MAX`, with the arguments
as the call leaves them.
-/
def startSlice (timeStamp duration : UInt64) (internalTid : UInt32)
    (cat nameIndex : UInt64) (args : ArgsSet) : Outcome (Option Nat × ArgsSet) :=
  let started := filters.sliceFilter.startSlice timeStamp duration internalTid cat nameIndex
  let left := { filters with sliceFilter := started.2 }
  match started.1 with
  | none => ⟨(none, args), left, []⟩
  | some index =>
    if args.hasValues then
      if args.inserted then
        ⟨(some index, args), { left with
          sliceArgs := filters.sliceArgs.setEntry index args.argSetId },
          [⟨index, args.argSetId⟩]⟩
      else
        let created := filters.sliceArgs.newArgs index
        ⟨(some index, { args with argSetId := created.1, inserted := true }),
          { left with sliceArgs := created.2.setEntry index created.1 },
          [⟨index, created.1⟩]⟩
    else
      ⟨(some index, args), { left with
        sliceArgs := filters.sliceArgs.setEntry index invalidUint32 },
        []⟩

/-- The sets that `CompleteSlice` places for the row that it completes. -/
def placeArgs (sliceArgs : SliceArgs) (lastRow : Nat) (args : ArgsSet)
    (isAsyncEvent : Bool) : SliceArgs × List ArgSetWrite :=
  let own : UInt32 × SliceArgs × List ArgSetWrite :=
    if args.hasValues then
      match sliceArgs.sliceRowToArgsSetId (UInt32.ofNat lastRow) with
      | none =>
        let created := sliceArgs.newArgs lastRow
        (created.1, created.2, [⟨lastRow, created.1⟩])
      | some argSetId => (argSetId, sliceArgs, [])
    else (0, sliceArgs, [])
  if isAsyncEvent ∧ own.1 = 0 then
    let created := own.2.1.newArgs lastRow
    (created.2, own.2.2 ++ [⟨lastRow, created.1⟩])
  else own.2

/-- `CompleteSlice` on the resolved thread. -/
def completeSlice (timeStamp : UInt64) (internalTid : UInt32)
    (category name : UInt64) (args : ArgsSet) : Outcome (Option Nat) :=
  let isAsyncEvent := ((filters.sliceFilter.stackMap internalTid).getD {}).isAsyncEvent
  let completed := filters.sliceFilter.endSlice timeStamp internalTid category name
  let left := { filters with sliceFilter := completed.2 }
  match completed.1 with
  | none => ⟨none, left, []⟩
  | some lastRow =>
    let placed := placeArgs filters.sliceArgs lastRow args isAsyncEvent
    ⟨some lastRow, { left with sliceArgs := placed.1 }, placed.2⟩

/-- `UpdateOrCreateThread`: the internal thread and the filters that know it. -/
def updateOrCreateThread (timeStamp : UInt64) (tid : UInt32) : UInt32 × StreamFilters :=
  let updated := filters.processFilter.updateOrCreateThread timeStamp tid
  (UInt32.ofNat updated.2, { filters with processFilter := updated.1 })

def beginSlice (hashFun : String → UInt64) (comm : String) (timeStamp : UInt64)
    (pid threadGroupId : UInt32) (cat nameIndex : UInt64) : Outcome (Option Nat × ArgsSet) :=
  let updated :=
    if 0 < threadGroupId then
      filters.processFilter.updateOrCreateThreadWithPidAndName hashFun pid threadGroupId comm
    else filters.processFilter.updateOrCreateThreadWithName hashFun timeStamp pid comm
  { filters with processFilter := updated.1 }.startSlice timeStamp invalidUint64
    (UInt32.ofNat updated.2) cat nameIndex {}

def endSlice (timeStamp : UInt64) (pid threadGroupId : UInt32)
    (category name : UInt64) : Outcome (Option Nat) :=
  let updated :=
    if 0 < threadGroupId then filters.processFilter.getOrCreateThreadWithPid pid threadGroupId
    else filters.processFilter.updateOrCreateThread timeStamp pid
  { filters with processFilter := updated.1 }.completeSlice timeStamp
    (UInt32.ofNat updated.2) category name {}

def beginBinder (timeStamp : UInt64) (pid : UInt32) (cat nameIndex : UInt64)
    (args : ArgsSet) : Outcome (Option Nat × ArgsSet) :=
  let updated := filters.updateOrCreateThread timeStamp pid
  updated.2.startSlice timeStamp invalidUint64 updated.1 cat nameIndex args

def asyncBinder (timeStamp : UInt64) (pid : UInt32) (cat nameIndex : UInt64)
    (args : ArgsSet) : Outcome (Option Nat × ArgsSet) :=
  let updated := filters.updateOrCreateThread timeStamp pid
  updated.2.startSlice timeStamp 0 updated.1 cat nameIndex args

def endBinder (timeStamp : UInt64) (pid : UInt32) (category name : UInt64)
    (args : ArgsSet) : Outcome (Option Nat) :=
  let updated := filters.updateOrCreateThread timeStamp pid
  updated.2.completeSlice timeStamp updated.1 category name args

/-- The stack entry that `AddArgs` looks for: its row. -/
def incompleteRow (internalTid : UInt32) (key1 key2 : UInt64) : Option Nat :=
  let stack := filters.sliceFilter.stack internalTid
  (SliceFilter.matchingIncompleteSliceIndex filters.sliceFilter.slices stack key1
    key2).bind fun idx => stack[idx]?

/-- `AddArgs`: the row and the number of its set. -/
def addArgs (tid : UInt32) (key1 key2 : UInt64) : (Nat × UInt32) × StreamFilters :=
  let internalTid :=
    match filters.processFilter.getInternalTid tid with
    | none => invalidUint32
    | some internalTid => UInt32.ofNat internalTid
  match filters.incompleteRow internalTid key1 key2 with
  | none => ((invalidUint32.toNat, invalidUint32), filters)
  | some index =>
    let argSetId := filters.sliceArgs.entryArgSetId index
    if argSetId = invalidUint32 then
      let created := filters.sliceArgs.newArgs index
      ((index, created.1), { filters with sliceArgs := created.2.setEntry index created.1 })
    else ((index, argSetId), filters)

/-- `StartAsyncSlice`; its row has no parent. -/
def startAsyncSlice (timeStamp : UInt64) (threadGroupId : UInt32)
    (cookie nameIndex : UInt64) : StreamFilters :=
  let updated := filters.updateOrCreateThread timeStamp threadGroupId
  let slices := filters.sliceFilter.slices
  if filters.asyncEventMap.find updated.1 cookie nameIndex ≠ invalidUint64 then updated.2
  else
    let asyncEventSize := filters.asyncEventSize + 1
    { updated.2 with
      asyncEventSize
      asyncEventMap := filters.asyncEventMap.insert updated.1 cookie nameIndex asyncEventSize
      sliceFilter :=
        { filters.sliceFilter with
          slices :=
            slices ++
              [⟨timeStamp, invalidUint64, updated.1, invalidUint64, nameIndex, 0,
                invalidUint32⟩] }
      -- `insert` keeps an entry that is already there
      asyncEventFilterMap :=
        match filters.asyncEventFilterMap asyncEventSize with
        | some _ => filters.asyncEventFilterMap
        | none =>
          Function.update filters.asyncEventFilterMap asyncEventSize
            (some slices.length) }

def finishAsyncSlice (timeStamp : UInt64) (threadGroupId : UInt32)
    (cookie nameIndex : UInt64) : StreamFilters :=
  let updated := filters.updateOrCreateThread timeStamp threadGroupId
  let lastFilterId := filters.asyncEventMap.find updated.1 cookie nameIndex
  if lastFilterId = invalidUint64 then updated.2
  else
    match filters.asyncEventFilterMap lastFilterId with
    | none => updated.2
    | some row =>
      { updated.2 with
        sliceFilter :=
          { filters.sliceFilter with
            slices := filters.sliceFilter.slices.setDuration row timeStamp }
        asyncEventFilterMap := Function.update filters.asyncEventFilterMap lastFilterId none
        asyncEventMap := filters.asyncEventMap.erase updated.1 cookie nameIndex }

variable (names : BinderNames)

/-- `SendTraction`; its own arguments always have values. -/
def sendTraction (ts : Int64) (tid : UInt32) (transactionId : UInt64)
    (destTid : UInt32) (isReply : Bool) (flags : UInt32) : StreamFilters :=
  let argsSend : ArgsSet := { hasValues := true }
  if isReply then
    let answered :=
      if filters.transReplyFilter tid = some destTid then
        let updated := (filters.updateOrCreateThread ts.toUInt64 destTid).2
        { (updated.addArgs tid names.binderCatalogId names.replyId).2 with
          transReplyFilter := Function.update filters.transReplyFilter tid none }
      else filters
    { (answered.endBinder ts.toUInt64 tid invalidUint64 invalidUint64
        argsSend).filters with
      transReplyWaitingReply := insert transactionId filters.transReplyWaitingReply }
  else if flags &&& noReturnMsgFlag = 0 then
    { (filters.beginBinder ts.toUInt64 tid names.binderCatalogId
        names.transSliceId argsSend).filters with
      transNeedReply := Function.update filters.transNeedReply transactionId (some tid) }
  else
    let sent :=
      filters.asyncBinder ts.toUInt64 tid names.binderCatalogId names.transAsyncId argsSend
    { sent.filters with
      asyncBinderEvents :=
        Function.update filters.asyncBinderEvents transactionId
          (some sent.answer.2) }

/-- The part of `ReceiveTraction` that begins the reply to a caller. -/
def beginReply (ts : Int64) (pid : UInt32) (transactionId : UInt64)
    (caller : UInt32) : Outcome Unit :=
  let begun := filters.beginBinder ts.toUInt64 pid names.binderCatalogId names.replyId {}
  let called := (begun.filters.addArgs caller names.binderCatalogId names.transSliceId).2
  let replied := called.addArgs pid names.binderCatalogId names.replyId
  ⟨(), { replied.2 with
    transReplyFilter := Function.update filters.transReplyFilter pid (some caller)
    transNeedReply :=
      Function.update filters.transNeedReply transactionId none },
    begun.writes ++ [⟨replied.1.1, replied.1.2⟩]⟩

def receiveTraction (ts : Int64) (pid : UInt32) (transactionId : UInt64) : Outcome Unit :=
  let known := (filters.updateOrCreateThread ts.toUInt64 pid).2
  if transactionId ∈ filters.transReplyWaitingReply then
    let ended := known.endBinder ts.toUInt64 pid invalidUint64 invalidUint64 {}
    ⟨(), { ended.filters with
      transReplyWaitingReply :=
        filters.transReplyWaitingReply.erase transactionId },
      ended.writes⟩
  else
    match filters.transNeedReply transactionId with
    | some caller => known.beginReply names ts pid transactionId caller
    | none =>
      match filters.asyncBinderEvents transactionId with
      | some args =>
        let received :=
          known.asyncBinder ts.toUInt64 pid names.binderCatalogId names.asyncRcvId args
        ⟨(), { received.filters with
          asyncBinderEvents :=
            Function.update filters.asyncBinderEvents transactionId
              none },
          received.writes⟩
      | none => ⟨(), known, []⟩

end StreamFilters

/-- An operation on the filters, in any order. -/
inductive StreamCall where
  | beginSlice (comm : String) (timeStamp : UInt64)
    (pid threadGroupId : UInt32) (cat nameIndex : UInt64)
  | endSlice (timeStamp : UInt64) (pid threadGroupId : UInt32)
    (category name : UInt64)
  | beginBinder (timeStamp : UInt64) (pid : UInt32) (cat nameIndex : UInt64)
    (args : ArgsSet)
  | asyncBinder (timeStamp : UInt64) (pid : UInt32) (cat nameIndex : UInt64)
    (args : ArgsSet)
  | endBinder (timeStamp : UInt64) (pid : UInt32) (category name : UInt64)
    (args : ArgsSet)
  | startAsyncSlice (timeStamp : UInt64) (threadGroupId : UInt32)
    (cookie nameIndex : UInt64)
  | finishAsyncSlice (timeStamp : UInt64) (threadGroupId : UInt32)
    (cookie nameIndex : UInt64)
  | addArgs (tid : UInt32) (key1 key2 : UInt64)
  | process (call : ProcessCall)
  | sendTraction (ts : Int64) (tid : UInt32) (transactionId : UInt64)
    (destTid : UInt32) (isReply : Bool) (flags : UInt32)
  | receiveTraction (ts : Int64) (pid : UInt32) (transactionId : UInt64)

def StreamFilters.step (names : BinderNames) (hashFun : String → UInt64)
    (filters : StreamFilters) : StreamCall → StreamFilters
  | .beginSlice comm timeStamp pid threadGroupId cat nameIndex =>
    (filters.beginSlice hashFun comm timeStamp pid threadGroupId cat nameIndex).filters
  | .endSlice timeStamp pid threadGroupId category name =>
    (filters.endSlice timeStamp pid threadGroupId category name).filters
  | .beginBinder timeStamp pid cat nameIndex args =>
    (filters.beginBinder timeStamp pid cat nameIndex args).filters
  | .asyncBinder timeStamp pid cat nameIndex args =>
    (filters.asyncBinder timeStamp pid cat nameIndex args).filters
  | .endBinder timeStamp pid category name args =>
    (filters.endBinder timeStamp pid category name args).filters
  | .startAsyncSlice timeStamp threadGroupId cookie nameIndex =>
    filters.startAsyncSlice timeStamp threadGroupId cookie nameIndex
  | .finishAsyncSlice timeStamp threadGroupId cookie nameIndex =>
    filters.finishAsyncSlice timeStamp threadGroupId cookie nameIndex
  | .addArgs tid key1 key2 => (filters.addArgs tid key1 key2).2
  | .process call => { filters with processFilter := filters.processFilter.step hashFun call }
  | .sendTraction ts tid transactionId destTid isReply flags =>
    filters.sendTraction names ts tid transactionId destTid isReply flags
  | .receiveTraction ts pid transactionId =>
    (filters.receiveTraction names ts pid transactionId).filters

end SysAnalyzer.Filter
