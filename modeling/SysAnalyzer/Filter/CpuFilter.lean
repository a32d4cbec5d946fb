import SysAnalyzer.Base.TripleMap
import SysAnalyzer.Filter.SliceFilter

/-!
# The CPU filter

`CpuFilter` turns the scheduler's switch and wakeup events into rows of the
sched slice table and of the thread state table.  A row is appended open and is
closed when the next row of its CPU, or of its thread, begins; the filter
remembers in maps which row that is.

The state is kept in three parts that the operations use almost independently:
the slices of the CPUs, the states of the threads and the binder transactions
that are waiting for their receiver.  Row numbers of the thread state table are
`TableRowId`, a 32-bit signed type; where a new row has no such number the
source goes on with an index out of range and the model has no next state.
-/

namespace SysAnalyzer.Filter

open Foundation
open Base

/-! ## Scheduler states -/

def taskRunnable : UInt64 := 0

def taskUninterruptible : UInt64 := 2

def taskRunning : UInt64 := 3

def taskUninterruptibleIo : UInt64 := 21

def taskUninterruptibleNio : UInt64 := 22

def taskDk : UInt64 := 130

def taskDkIo : UInt64 := 131

def taskDkNio : UInt64 := 132

def taskNew : UInt64 := 2048

def taskRunnableBinder : UInt64 := 2049

def taskInvalid : UInt64 := 0x8000

def invalidTime : UInt64 := invalidUint64

def invalidCpu : UInt32 := invalidUint32

structure SwitchEvent where
  ts : UInt64
  cpu : UInt32
  prevPid : UInt32
  prevState : UInt64
  nextPid : UInt32
  nextPior : UInt64
  deriving DecidableEq

structure SchedSliceRow where
  ts : UInt64
  dur : UInt64
  cpu : UInt32
  internalTid : UInt32
  endState : UInt64
  priority : UInt64

structure RowPos where
  iTid : UInt32
  row : Nat

/-- The sched slice table, with the last row of each CPU. -/
structure SchedSlices where
  rows : List SchedSliceRow
  cpuToRowSched : StdMap UInt32 RowPos

namespace SchedSlices

def initial : SchedSlices := ⟨[], fun _ => none⟩

def update (rows : List SchedSliceRow) (index : Nat) (ts state : UInt64) : List SchedSliceRow :=
  rows.modify index fun row => { row with dur := ts - row.ts, endState := state }

def updateEndState (rows : List SchedSliceRow) (index : Nat) (state : UInt64) :
    List SchedSliceRow :=
  rows.modify index fun row => { row with endState := state }

/-- The sched slice part of `InsertSwitchEvent`, and `btInfo.schedSliceRow`. -/
def insertSwitch (slices : SchedSlices) (event : SwitchEvent) : SchedSlices × Option Nat :=
  let index := slices.rows.length
  let rows := slices.rows ++ [⟨event.ts, 0, event.cpu, event.nextPid, 0, event.nextPior⟩]
  match slices.cpuToRowSched event.cpu with
  | some last =>
    (⟨update rows last.row event.ts event.prevState, Function.update slices.cpuToRowSched event.cpu
      (some { last with row := index })⟩,
      some last.row)
  | none =>
    (⟨rows, Function.update slices.cpuToRowSched event.cpu (some ⟨event.nextPid, index⟩)⟩, none)

end SchedSlices

/-! ## The states of the threads -/

structure ThreadStateRow where
  ts : UInt64
  dur : UInt64
  cpu : UInt32
  itid : UInt32
  state : UInt64
  deriving DecidableEq

structure TPthread where
  row : Nat
  state : UInt64

/-- The thread state table, with the rows and wakeups that are still open. -/
structure ThreadStates where
  rows : List ThreadStateRow
  cpuToRowThreadState : StdMap UInt32 Nat
  internalTidToRowThreadState : StdMap UInt32 TPthread
  toRunnableTid : StdMap UInt32 UInt64
  pidToThreadSliceRow : StdMap UInt32 Nat

namespace ThreadStates

def initial : ThreadStates := ⟨[], fun _ => none, fun _ => none, fun _ => none, fun _ => none⟩

/-- A state as it passes through `TableRowId`, a 32-bit signed type. -/
def narrowState (state : UInt64) : UInt64 := state.toUInt32.toInt32.toInt64.toUInt64

/-- The number of rows that `TableRowId` has numbers for. -/
def maxRows : Nat := 2 ^ 31

/-- `AppendThreadState`: the number of the row, and the table with it. -/
def appendThreadState (rows : List ThreadStateRow) (ts dur : UInt64)
    (cpu itid : UInt32) (idState : UInt64) : Option (Nat × List ThreadStateRow) :=
  if rows.length < maxRows then
    some (rows.length, rows ++ [⟨ts, dur, cpu, itid, narrowState idState⟩])
  else none

/-- `ThreadStateData::UpdateDuration` closes a row that is open. -/
def updateDuration (rows : List ThreadStateRow) (index : Nat) (ts : UInt64) : List ThreadStateRow :=
  rows.modify index fun row =>
    if row.dur = invalidTime then { row with dur := ts - row.ts } else row

def updateState (rows : List ThreadStateRow) (index : Nat) (state : UInt64) : List ThreadStateRow :=
  rows.modify index fun row => { row with state := narrowState state }

/--
`ThreadStateData::End`: `false` for an open row, whose duration it sets to the -1
that it has.
-/
def endRow (rows : List ThreadStateRow) (index : Nat) : Bool :=
  match rows[index]? with
  | some row => row.dur ≠ invalidTime
  | none => true

def remberInternalTidInStateTable (states : ThreadStates) (uid : UInt32)
    (row : Nat) (state : UInt64) : ThreadStates :=
  { states with
    internalTidToRowThreadState :=
      Function.update states.internalTidToRowThreadState uid
        (some ⟨row, state⟩) }

/-- `RowOfInternalTidInStateTable`; `none` is `INVALID_UINT64`. -/
def rowOfInternalTidInStateTable (states : ThreadStates) (uid : UInt32) : Option Nat :=
  (states.internalTidToRowThreadState uid).map TPthread.row

def clearInternalTidInStateTable (states : ThreadStates) (uid : UInt32) : ThreadStates :=
  { states with
    internalTidToRowThreadState := Function.update states.internalTidToRowThreadState uid none }

def stateOfInternalTidInStateTable (states : ThreadStates) (uid : UInt32) : UInt64 :=
  match states.internalTidToRowThreadState uid with
  | some thread => thread.state
  | none => taskInvalid

def closeLast (states : ThreadStates) (lastRow : Option Nat) (ts : UInt64) : ThreadStates :=
  match lastRow with
  | some row => { states with rows := updateDuration states.rows row ts }
  | none => states

def appendOpen (states : ThreadStates) (ts : UInt64) (cpu itid : UInt32)
    (state : UInt64) : Option (Nat × ThreadStates) :=
  (appendThreadState states.rows ts invalidTime cpu itid state).map fun appended =>
    (appended.1, { states with rows := appended.2 }.remberInternalTidInStateTable itid
      appended.1 state)

def checkWakeupEvent (states : ThreadStates) (internalTid : UInt32) : Option ThreadStates :=
  match states.toRunnableTid internalTid with
  | none => some states
  | some wakeup =>
    let erased : ThreadStates :=
      { states with
        toRunnableTid := Function.update states.toRunnableTid internalTid none }
    if states.stateOfInternalTidInStateTable internalTid = taskRunning then some erased
    else
      ((erased.closeLast (states.rowOfInternalTidInStateTable internalTid) wakeup).appendOpen
        wakeup invalidCpu internalTid taskRunnable).map
        Prod.snd

def beginNext (states : ThreadStates) (event : SwitchEvent) : Option (Nat × ThreadStates) := do
  let states ← states.checkWakeupEvent event.nextPid
  let lastRow := states.rowOfInternalTidInStateTable event.nextPid
  (states.closeLast lastRow event.ts).appendOpen event.ts event.cpu event.nextPid taskRunning

def abandonedRow (states : ThreadStates) (event : SwitchEvent) : Option Nat :=
  match states.cpuToRowThreadState event.cpu with
  | none => none
  | some last =>
    match states.rows[last]? with
    | none => none
    | some row =>
      if row.itid ≠ event.prevPid ∧ endRow states.rows last = false then some last
      else none

/-- Only one thread runs on a CPU: the row remembered for it is replaced. -/
def replaceOnCpu (states : ThreadStates) (event : SwitchEvent) (index : Nat) : ThreadStates :=
  let cleared :=
    match (states.abandonedRow event).bind (states.rows[·]?) with
    | some row => states.clearInternalTidInStateTable row.itid
    | none => states
  { cleared with
    cpuToRowThreadState := Function.update cleared.cpuToRowThreadState event.cpu (some index) }

/-- The part of `InsertSwitchEvent` for the next thread. -/
def switchNext (states : ThreadStates) (event : SwitchEvent) : Option ThreadStates :=
  if event.nextPid = 0 then some states
  else (states.beginNext event).map fun begun => begun.2.replaceOnCpu event begun.1

/-- `isChangeCpu`: the thread has begun to run elsewhere at the same time. -/
def isChangeCpu (states : ThreadStates) (event : SwitchEvent) : Bool :=
  match (states.rowOfInternalTidInStateTable event.prevPid).bind (states.rows[·]?) with
  | some row => event.cpu ≠ row.cpu ∧ row.state = taskRunning ∧ event.ts = row.ts
  | none => false

/-- The part of `InsertSwitchEvent` for the previous thread. -/
def switchPrev (states : ThreadStates) (event : SwitchEvent) : Option (ThreadStates × Option Nat) :=
  if event.prevPid = 0 ∨ states.isChangeCpu event then some (states, none)
  else do
    -- the row is looked up before the wakeup event is handled
    let lastRow := states.rowOfInternalTidInStateTable event.prevPid
    let states ←
      match lastRow with
      | some _ => (states.checkWakeupEvent event.prevPid).map (·.closeLast lastRow event.ts)
      | none => some states
    let (threadStateRow, states) ←
      states.appendOpen event.ts invalidCpu event.prevPid event.prevState
    let states :=
      if event.prevState = taskUninterruptible ∨ event.prevState = taskDk then
        { states with
          pidToThreadSliceRow :=
            Function.update states.pidToThreadSliceRow event.prevPid
              (some threadStateRow) }
      else states
    return (states, some threadStateRow)

/-- The thread state part of `InsertSwitchEvent`, and `btInfo.threadStateRow`. -/
def insertSwitch (states : ThreadStates) (event : SwitchEvent) :
    Option (ThreadStates × Option Nat) :=
  (states.switchNext event).bind (·.switchPrev event)

def insertWakeupEvent (states : ThreadStates) (ts : UInt64)
    (internalTid : UInt32) (isWaking : Bool) : ThreadStates :=
  if ¬ isWaking ∧ states.toRunnableTid internalTid = none then
    { states with
      toRunnableTid := Function.update states.toRunnableTid internalTid (some ts) }
  else states

def insertBlockedReasonEvent (states : ThreadStates) (iTid : UInt32)
    (iowait : Bool) : ThreadStates :=
  match states.pidToThreadSliceRow iTid with
  | none => states
  | some row =>
    let state := (states.rows[row]?.map ThreadStateRow.state)
    let rows :=
      if state = some taskUninterruptible then
        updateState states.rows row
          (if iowait then taskUninterruptibleIo else taskUninterruptibleNio)
      else if state = some taskDk then
        updateState states.rows row (if iowait then taskDkIo else taskDkNio)
      else states.rows
    { states with
      rows
      pidToThreadSliceRow := Function.update states.pidToThreadSliceRow iTid none }

end ThreadStates

structure BinderTransactionInfo where
  iTidFrom : UInt32
  iTidTo : UInt32
  schedSliceRow : Option Nat
  threadStateRow : Option Nat

structure BinderTransactions where
  iTidToTransaction : StdMap UInt32 UInt32
  transactionIdToInfo : StdMap UInt32 BinderTransactionInfo

namespace BinderTransactions

def initial : BinderTransactions := ⟨fun _ => none, fun _ => none⟩

def transactionClear (transactions : BinderTransactions) (iTidFrom : UInt32)
    (transactionId : UInt32) : BinderTransactions :=
  let iTidToTransaction := Function.update transactions.iTidToTransaction iTidFrom none
  match transactions.transactionIdToInfo transactionId with
  | none => { transactions with iTidToTransaction }
  | some info =>
    ⟨Function.update iTidToTransaction info.iTidFrom none,
      Function.update transactions.transactionIdToInfo transactionId none⟩

def insertRunnableBinderEvent (transactions : BinderTransactions)
    (transactionId iTid : UInt32) : BinderTransactions :=
  ⟨Function.update transactions.iTidToTransaction iTid (some transactionId),
    Function.update transactions.transactionIdToInfo transactionId
      (some ⟨iTid, invalidUint32, none, none⟩)⟩

/-- The binder part of `InsertSwitchEvent`, with tracing enabled. -/
def insertSwitch (transactions : BinderTransactions) (event : SwitchEvent)
    (schedSliceRow threadStateRow : Option Nat) : BinderTransactions :=
  match transactions.iTidToTransaction event.prevPid with
  | none => transactions
  | some transactionId =>
    if event.prevState ≠ taskNew ∨ (transactions.transactionIdToInfo transactionId).map
      BinderTransactionInfo.iTidFrom ≠ some event.prevPid ∨
      schedSliceRow = none ∨ threadStateRow = none then
      -- the state is passed where a thread is expected
      transactions.transactionClear event.prevState.toUInt32 transactionId
    else
      { transactions with
        transactionIdToInfo :=
          Function.update transactions.transactionIdToInfo transactionId
            (some
              ⟨event.prevPid, event.nextPid, schedSliceRow,
                threadStateRow⟩) }

end BinderTransactions

/-- The filter; whether binder transactions are traced is a configuration. -/
structure CpuFilter where
  binderRunnableTraceEnabled : Bool
  slices : SchedSlices
  states : ThreadStates
  transactions : BinderTransactions

/-- The operations of the filter. -/
inductive CpuCall where
  | insertSwitchEvent (event : SwitchEvent)
  | insertBlockedReasonEvent (iTid : UInt32) (iowait : Bool)
  | insertWakeupEvent (ts : UInt64) (internalTid : UInt32) (isWaking : Bool)
  | insertProcessExitEvent (ts : UInt64) (pid : UInt32)
  | insertProcessFreeEvent (ts : UInt64) (pid : UInt32)
  | insertRunnableBinderEvent (transactionId iTid : UInt32)
  | insertRunnableBinderRecvEvent (transactionId iTid : UInt32)
  | finish
  | clear
  deriving DecidableEq

namespace CpuFilter

def initial (binderRunnableTraceEnabled : Bool) : CpuFilter :=
  ⟨binderRunnableTraceEnabled, .initial, .initial, .initial⟩

def insertSwitchEvent (filter : CpuFilter) (event : SwitchEvent) : Option CpuFilter :=
  let (slices, schedSliceRow) := filter.slices.insertSwitch event
  (filter.states.insertSwitch event).map fun (states, threadStateRow) =>
    { filter with
      slices
      states
      transactions :=
        if filter.binderRunnableTraceEnabled then
          filter.transactions.insertSwitch event schedSliceRow threadStateRow
        else filter.transactions }

/-- The rows whose state `InsertRunnableBinderRecvEvent` changes. -/
def receivedRows (filter : CpuFilter) (transactionId iTid : UInt32) : Option (Nat × Nat) :=
  match filter.transactions.transactionIdToInfo transactionId with
  | some ⟨_, iTidTo, some schedSliceRow, some threadStateRow⟩ =>
    if iTidTo = iTid then some (schedSliceRow, threadStateRow) else none
  | _ => none

def insertRunnableBinderRecvEvent (filter : CpuFilter) (transactionId iTid : UInt32) : CpuFilter :=
  match filter.transactions.transactionIdToInfo transactionId with
  | none => filter
  | some _ =>
    let changed : CpuFilter :=
      match filter.receivedRows transactionId iTid with
      | some (schedSliceRow, threadStateRow) =>
        { filter with
          slices :=
            { filter.slices with
              rows :=
                SchedSlices.updateEndState filter.slices.rows schedSliceRow
                  taskRunnableBinder }
          states :=
            { filter.states with
              rows :=
                ThreadStates.updateState filter.states.rows threadStateRow
                  taskRunnableBinder } }
      | none => filter
    { changed with
      transactions := changed.transactions.transactionClear invalidUint32 transactionId }

/-- `Clear` forgets the open rows and the transactions, not the tables. -/
def clear (filter : CpuFilter) : CpuFilter :=
  { filter with
    slices := { filter.slices with cpuToRowSched := fun _ => none }
    states :=
      { filter.states with
        cpuToRowThreadState := fun _ => none
        internalTidToRowThreadState := fun _ => none }
    transactions := .initial }

/--
One operation.  The events of processes and `Finish` write to the process and
thread tables and to the process columns of the two tables only.
-/
def step (filter : CpuFilter) : CpuCall → Option CpuFilter
  | .insertSwitchEvent event => filter.insertSwitchEvent event
  | .insertBlockedReasonEvent iTid iowait =>
    some { filter with
      states := filter.states.insertBlockedReasonEvent iTid iowait }
  | .insertWakeupEvent ts internalTid isWaking =>
    some { filter with
      states := filter.states.insertWakeupEvent ts internalTid isWaking }
  | .insertProcessExitEvent _ _ => some filter
  | .insertProcessFreeEvent _ _ => some filter
  | .insertRunnableBinderEvent transactionId iTid =>
    some { filter with
      transactions := filter.transactions.insertRunnableBinderEvent transactionId iTid }
  | .insertRunnableBinderRecvEvent transactionId iTid =>
    some (filter.insertRunnableBinderRecvEvent transactionId iTid)
  | .finish => some filter
  | .clear => some filter.clear

end CpuFilter

end SysAnalyzer.Filter
