import SysAnalyzer.Filter.CpuTimeline
import SysAnalyzer.Filter.ThreadTimeline

/-!
# Binder transactions that wait for their receiver

Two maps refer to each other: a thread to the transaction it waits in, and a
transaction to the thread that began it.  They are linked when every entry of
the first leads to one of the second that leads back.  Operations keep the maps
linked, and keep the entries of threads in other transactions, exactly along the
runs that never reuse a transaction of another thread, never receive a
transaction behind a newer one, and never meet a scheduler state that is the
number of a waiting thread.
-/

namespace SysAnalyzer.Filter

open Foundation Option Function List
open Base

namespace BinderTransactions

/-- Every waiting thread began the transaction that it waits in. -/
def Linked (transactions : BinderTransactions) : Prop :=
  ∀ thread transactionId, transactions.iTidToTransaction thread = some transactionId → ∃ info,
    transactions.transactionIdToInfo transactionId = some info ∧ info.iTidFrom = thread

theorem iTidToTransaction_transactionClear (transactions : BinderTransactions)
    (iTidFrom transactionId thread : UInt32) :
    (transactions.transactionClear iTidFrom transactionId).iTidToTransaction thread =
      if thread = iTidFrom ∨ (transactions.transactionIdToInfo transactionId).map
        BinderTransactionInfo.iTidFrom = some thread then none
      else transactions.iTidToTransaction thread := by
  unfold transactionClear
  cases transactions.transactionIdToInfo transactionId with
  | none => simp [update_apply]
  | some info =>
    by_cases isFrom : thread = info.iTidFrom
    · simp [isFrom]
    · simp [update_apply, isFrom, Ne.symm isFrom]

theorem transactionIdToInfo_transactionClear (transactions : BinderTransactions)
    (iTidFrom transactionId id : UInt32) :
    (transactions.transactionClear iTidFrom transactionId).transactionIdToInfo id =
      if id = transactionId then none else transactions.transactionIdToInfo id := by
  unfold transactionClear
  cases known : transactions.transactionIdToInfo transactionId with
  | none =>
    by_cases same : id = transactionId
    · simp [same, known]
    · simp [same]
  | some info => simp [update_apply]

variable {transactions : BinderTransactions}

theorem Linked.transactionClear (linked : transactions.Linked) (iTidFrom transactionId : UInt32) :
    (transactions.transactionClear iTidFrom transactionId).Linked := by
  intro thread id waits
  rw [iTidToTransaction_transactionClear] at waits
  split at waits
  · cases waits
  · next stays =>
      rcases linked thread id waits with ⟨info, known, isFrom⟩
      refine ⟨info, ?_, isFrom⟩
      rw [transactionIdToInfo_transactionClear, if_neg, known]
      rintro rfl
      exact stays (.inr (by rw [known, map_some, isFrom]))

theorem linked_insertRunnableBinderEvent_iff
    (linked : transactions.Linked) (transactionId iTid : UInt32) :
    (transactions.insertRunnableBinderEvent transactionId iTid).Linked ↔ ∀ thread, thread ≠ iTid →
      transactions.iTidToTransaction thread ≠ some transactionId := by
  constructor
  · intro after thread other waits
    have stillWaits : (transactions.insertRunnableBinderEvent transactionId
      iTid).iTidToTransaction thread = some transactionId := by
      simpa [insertRunnableBinderEvent, other] using waits
    rcases after thread transactionId stillWaits with ⟨info, known, isFrom⟩
    simp only [insertRunnableBinderEvent, update_self, some.injEq] at known
    subst known
    exact other isFrom.symm
  · intro unused thread id waits
    by_cases same : thread = iTid
    · subst same
      simp only [insertRunnableBinderEvent, update_self, some.injEq] at waits
      subst waits
      exact ⟨⟨thread, invalidUint32, none, none⟩, by simp [insertRunnableBinderEvent], rfl⟩
    · have before : transactions.iTidToTransaction thread = some id := by
        simpa [insertRunnableBinderEvent, same] using waits
      rcases linked thread id before with ⟨info, known, isFrom⟩
      refine ⟨info, ?_, isFrom⟩
      have other : id ≠ transactionId := by
        rintro rfl
        exact unused thread same before
      simpa [insertRunnableBinderEvent, other] using known

theorem Linked.insertSwitch (linked : transactions.Linked) (event : SwitchEvent)
    (schedSliceRow threadStateRow : Option Nat) :
    (transactions.insertSwitch event schedSliceRow threadStateRow).Linked := by
  unfold BinderTransactions.insertSwitch
  cases waits : transactions.iTidToTransaction event.prevPid with
  | none => exact linked
  | some transactionId =>
    simp only
    split
    · exact linked.transactionClear _ _
    · intro thread id stillWaits
      rcases linked thread id stillWaits with ⟨info, known, isFrom⟩
      by_cases same : id = transactionId
      · subst same
        rcases linked _ _ waits with ⟨prevInfo, prevKnown, isPrev⟩
        rw [known, some.injEq] at prevKnown
        subst prevKnown
        exact ⟨⟨event.prevPid, event.nextPid, schedSliceRow, threadStateRow⟩,
          by simp, isPrev.symm.trans isFrom⟩
      · exact ⟨info, by simpa [same] using known, isFrom⟩

theorem keeps_transactionClear_iff (iTidFrom transactionId : UInt32) :
    (∀ thread other, transactions.iTidToTransaction thread = some other →
      other ≠ transactionId → (transactions.transactionClear iTidFrom
        transactionId).iTidToTransaction thread ≠ none) ↔
      ∀ thread other, thread = iTidFrom ∨ (transactions.transactionIdToInfo transactionId).map
        BinderTransactionInfo.iTidFrom = some thread →
        transactions.iTidToTransaction thread = some other → other = transactionId := by
  constructor
  · intro keeps thread other isNamed waits
    by_contra isOther
    apply keeps thread other waits isOther
    rw [iTidToTransaction_transactionClear, if_pos isNamed]
  · intro named thread other waits isOther
    rw [iTidToTransaction_transactionClear, if_neg, waits]
    · simp
    · intro isNamed
      exact isOther (named thread other isNamed waits)

theorem keeps_insertSwitch_iff (linked : transactions.Linked) {event : SwitchEvent}
    {transactionId : UInt32} (waits :
      transactions.iTidToTransaction event.prevPid = some transactionId)
    (schedSliceRow threadStateRow : Option Nat) :
    (∀ thread other, transactions.iTidToTransaction thread = some other →
      other ≠ transactionId → (transactions.insertSwitch event schedSliceRow
        threadStateRow).iTidToTransaction thread ≠ none) ↔
      (event.prevState ≠ taskNew ∨ schedSliceRow = none ∨ threadStateRow = none →
        ∀ other, transactions.iTidToTransaction event.prevState.toUInt32 = some other →
          other = transactionId) := by
  rcases linked event.prevPid transactionId waits with ⟨info, known, isFrom⟩
  have isPrev : (transactions.transactionIdToInfo transactionId).map
    BinderTransactionInfo.iTidFrom = some event.prevPid := by
    rw [known, map_some, isFrom]
  by_cases clears : event.prevState ≠ taskNew ∨ schedSliceRow = none ∨ threadStateRow = none
  · have cleared : transactions.insertSwitch event schedSliceRow threadStateRow =
      transactions.transactionClear event.prevState.toUInt32 transactionId := by
      simp [insertSwitch, waits, isPrev, clears]
    rw [cleared, keeps_transactionClear_iff, isPrev]
    simp only [clears, true_imp_iff]
    constructor
    · intro named other waitsToo
      exact named _ other (.inl rfl) waitsToo
    · rintro ofState thread other (rfl | isThread) waitsToo
      · exact ofState other waitsToo
      · rw [← some.inj isThread, waits] at waitsToo
        exact (some.inj waitsToo).symm
  · have noted : (transactions.insertSwitch event schedSliceRow threadStateRow).iTidToTransaction =
      transactions.iTidToTransaction := by
      simp only [not_or, ne_eq, not_not] at clears
      simp [insertSwitch, waits, isPrev, clears]
    rw [noted]
    simp only [clears, false_imp_iff, iff_true]
    intro thread other waitsToo _
    rw [waitsToo]
    simp

end BinderTransactions

namespace ThreadStates

/-- The rows remembered for the threads are in the table. -/
def InRange (states : ThreadStates) : Prop :=
  ∀ itid thread, states.internalTidToRowThreadState itid = some thread →
    thread.row < states.rows.length

/-- What an operation on the rows of one thread leaves alone. -/
structure Touches (states next : ThreadStates) (itid : UInt32) : Prop where
  others : ∀ other, other ≠ itid → next.internalTidToRowThreadState other =
    states.internalTidToRowThreadState other
  grows : Extends states.rows next.rows
  inRange : states.InRange → next.InRange

variable {states next : ThreadStates} {itid : UInt32}

theorem Touches.trans {middle : ThreadStates} (first : Touches states middle itid)
    (second : Touches middle next itid) : Touches states next itid where
  others := fun other isOther => (second.others other isOther).trans (first.others other isOther)
  grows := first.grows.trans second.grows
  inRange := fun inRange => second.inRange (first.inRange inRange)

theorem touches_appendOpen {lastRow : Option Nat} {ts begins : UInt64} {cpu : UInt32}
    {state : UInt64} {number : Nat} (appended :
      (states.closeLast lastRow ts).appendOpen begins cpu itid state = some (number, next)) :
    Touches states next itid ∧ next.internalTidToRowThreadState itid = some ⟨number, state⟩ ∧
      next.rows[number]? = some (openRow begins cpu itid state) := by
  rcases appendOpen_eq_some appended with ⟨rfl, rfl⟩
  refine ⟨⟨?_, ?_, ?_⟩, by simp, by simp⟩
  · intro other isOther
    rw [closeLast_eq]
    simp [isOther]
  · exact (extends_closeLast states lastRow ts).trans (extends_concat _ _)
  · intro inRange other thread known
    simp only [length_append, length_singleton]
    by_cases isOwn : other = itid
    · subst isOwn
      simp only [update_self, some.injEq] at known
      subst known
      exact Nat.lt_succ_self _
    · rw [closeLast_eq] at known
      simp only [update_of_ne isOwn] at known
      rw [length_closeLast]
      exact Nat.lt_succ_of_lt (inRange other thread known)

theorem touches_checkWakeupEvent (checked : states.checkWakeupEvent itid = some next) :
    Touches states next itid := by
  unfold checkWakeupEvent at checked
  have erased : Touches states { states with
    toRunnableTid := Function.update states.toRunnableTid itid none }
    itid :=
    ⟨fun _ _ => rfl, Extends.refl _, fun inRange => inRange⟩
  cases waits : states.toRunnableTid itid with
  | none =>
    simp only [waits, some.injEq] at checked
    subst checked
    exact ⟨fun _ _ => rfl, Extends.refl _, fun inRange => inRange⟩
  | some wakeup =>
    simp only [waits] at checked
    split at checked
    · cases checked
      exact erased
    · rcases map_eq_some_iff.1 checked with
        ⟨⟨number, moved⟩, appended, rfl⟩
      exact erased.trans (touches_appendOpen appended).1

variable {event : SwitchEvent}

theorem touches_beginNext {number : Nat} (begun : states.beginNext event = some (number, next)) :
    Touches states next event.nextPid ∧ next.internalTidToRowThreadState event.nextPid =
      some ⟨number, taskRunning⟩ ∧
      next.rows[number]? = some (openRow event.ts event.cpu event.nextPid taskRunning) := by
  unfold beginNext at begun
  rcases bind_eq_some_iff.1 begun with ⟨woken, checked, appended⟩
  rcases touches_appendOpen appended with ⟨touched, remembered, opened⟩
  exact ⟨(touches_checkWakeupEvent checked).trans touched, remembered, opened⟩

theorem remembered_replaceOnCpu (states : ThreadStates) (event : SwitchEvent) (index : Nat) :
    ((states.replaceOnCpu event index).internalTidToRowThreadState event.prevPid =
      states.internalTidToRowThreadState event.prevPid) ∧
      ∀ itid thread, (states.replaceOnCpu event index).internalTidToRowThreadState itid =
        some thread → states.internalTidToRowThreadState itid = some thread := by
  unfold replaceOnCpu
  cases isRow : states.abandonedRow event with
  | none => exact ⟨rfl, fun _ _ known => known⟩
  | some last =>
    rcases abandonedRow_eq_some isRow with ⟨_, row, found, notPrev, _⟩
    simp only [bind_some, found, clearInternalTidInStateTable]
    refine ⟨by simp [Ne.symm notPrev], ?_⟩
    intro itid thread known
    by_cases isGone : itid = row.itid
    · simp [isGone] at known
    · simpa [isGone] using known

section

variable (inRange : states.InRange)
include inRange

theorem isChangeCpu_congr (grows : Extends states.rows next.rows) (same :
    next.internalTidToRowThreadState event.prevPid =
      states.internalTidToRowThreadState event.prevPid) :
    next.isChangeCpu event = states.isChangeCpu event := by
  unfold isChangeCpu rowOfInternalTidInStateTable
  rw [same]
  cases known : states.internalTidToRowThreadState event.prevPid with
  | none => rfl
  | some thread =>
    have found := getElem?_eq_getElem (inRange event.prevPid thread known)
    rcases grows _ _ found with ⟨later, atLater, change⟩
    simp only [map_some, bind_some, found, atLater]
    rcases change with rfl | ⟨_, ts, rfl⟩ <;> rfl

theorem isChangeCpu_switchNext (switched : states.switchNext event = some next) :
    next.InRange ∧ (event.prevPid ≠ 0 → (next.isChangeCpu event = true ↔
      event.prevPid ≠ event.nextPid ∧ states.isChangeCpu event = true)) := by
  by_cases idle : event.nextPid = 0
  · have same := switchNext_idle idle switched
    subst same
    refine ⟨inRange, fun notIdle => ?_⟩
    rw [idle]
    simp [notIdle]
  · rcases switchNext_eq_some idle switched with ⟨number, begun, isBegun, rfl⟩
    rcases touches_beginNext isBegun with ⟨touched, remembered, opened⟩
    rcases remembered_replaceOnCpu begun event number with
      ⟨samePrev, onlyOld⟩
    refine ⟨?_, fun _ => ?_⟩
    · intro itid thread known
      rw [rows_replaceOnCpu]
      exact touched.inRange inRange itid thread (onlyOld itid thread known)
    · by_cases sameThread : event.prevPid = event.nextPid
      · have running : (begun.replaceOnCpu event number).internalTidToRowThreadState
          event.prevPid = some ⟨number, taskRunning⟩ := by
          rw [samePrev, sameThread, remembered]
        unfold isChangeCpu rowOfInternalTidInStateTable
        rw [running, rows_replaceOnCpu]
        simp [opened, openRow, sameThread]
      · rw [isChangeCpu_congr inRange (by rw [rows_replaceOnCpu]; exact touched.grows)
          (by rw [samePrev, touched.others _ sameThread])]
        simp [sameThread]

theorem row_switchPrev {row : Option Nat} (switched : states.switchPrev event = some (next, row)) :
    next.InRange ∧ (row = none ↔ event.prevPid = 0 ∨ states.isChangeCpu event = true) := by
  by_cases skipped : event.prevPid = 0 ∨ states.isChangeCpu event = true
  · have same := switchPrev_skipped skipped switched
    unfold switchPrev at switched
    rw [if_pos skipped, some.injEq, Prod.mk.injEq] at switched
    subst same
    exact ⟨inRange, by simp [skipped, ← switched.2]⟩
  · have stays := skipped
    simp only [not_or, Bool.not_eq_true] at stays
    rcases switchPrev_eq_some stays.1 stays.2 switched with
      ⟨ready, number, moved, noted, isReady, appended, rfl, rfl⟩
    refine ⟨?_, by simp [skipped]⟩
    have movedInRange : moved.InRange := by
      cases known : states.rowOfInternalTidInStateTable event.prevPid with
      | none =>
        rw [known, some.injEq] at isReady
        subst isReady
        have closed : states = states.closeLast none event.ts := rfl
        rw [closed] at appended
        exact (touches_appendOpen appended).1.inRange inRange
      | some last =>
        rw [known] at isReady
        rcases map_eq_some_iff.1 isReady with ⟨woken, checked, rfl⟩
        have touched := (touches_checkWakeupEvent checked).trans (touches_appendOpen appended).1
        exact touched.inRange inRange
    exact movedInRange

theorem row_insertSwitch {row : Option Nat}
    (switched : states.insertSwitch event = some (next, row)) :
    next.InRange ∧ (row = none ↔ event.prevPid = 0 ∨
      event.prevPid ≠ event.nextPid ∧ states.isChangeCpu event = true) := by
  rcases insertSwitch_eq_some switched with ⟨middle, letNext, letPrev⟩
  rcases isChangeCpu_switchNext inRange letNext with ⟨middleInRange, change⟩
  rcases row_switchPrev middleInRange letPrev with ⟨nextInRange, noRow⟩
  refine ⟨nextInRange, noRow.trans ?_⟩
  by_cases idle : event.prevPid = 0
  · simp [idle]
  · simp [idle, change idle]

end

end ThreadStates

/-! ## Operations of the filter -/

namespace CpuFilter

def transactionOf (filter : CpuFilter) : CpuCall → Option UInt32
  | .insertSwitchEvent event => filter.transactions.iTidToTransaction event.prevPid
  | .insertRunnableBinderEvent transactionId _ => some transactionId
  | .insertRunnableBinderRecvEvent transactionId _ => some transactionId
  | _ => none

/--
An operation about one transaction does not remove the entry of a thread that
takes part in another.
-/
def KeepsOthers (filter : CpuFilter) (call : CpuCall) : Prop :=
  ∀ transactionId next, filter.transactionOf call = some transactionId →
    filter.step call = some next → ∀ thread other,
      filter.transactions.iTidToTransaction thread = some other → other ≠ transactionId →
        next.transactions.iTidToTransaction thread ≠ none

def ClearsTransaction (filter : CpuFilter) (event : SwitchEvent) : Prop :=
  event.prevState ≠ taskNew ∨ filter.slices.cpuToRowSched event.cpu = none ∨ event.prevPid = 0 ∨
    event.prevPid ≠ event.nextPid ∧ filter.states.isChangeCpu event = true

/-- The condition on one operation under which the bookkeeping is consistent. -/
def BinderStep (filter : CpuFilter) : CpuCall → Prop
  | .insertRunnableBinderEvent transactionId iTid =>
    ∀ thread, thread ≠ iTid → filter.transactions.iTidToTransaction thread ≠ some transactionId
  | .insertRunnableBinderRecvEvent transactionId _ =>
    ∀ info ∈ filter.transactions.transactionIdToInfo transactionId,
      ∀ thread other, thread = invalidUint32 ∨ thread = info.iTidFrom →
        filter.transactions.iTidToTransaction thread = some other → other = transactionId
  | .insertSwitchEvent event =>
    ∀ transactionId other, filter.transactions.iTidToTransaction event.prevPid =
      some transactionId →
      filter.ClearsTransaction event →
        filter.transactions.iTidToTransaction event.prevState.toUInt32 = some other →
          other = transactionId
  | _ => True

def IsBinderCall : CpuCall → Prop
  | .insertSwitchEvent _ => True
  | .insertRunnableBinderEvent _ _ => True
  | .insertRunnableBinderRecvEvent _ _ => True
  | _ => False

/-- The maps are linked and the remembered rows are in the table. -/
structure Bookkeeping (filter : CpuFilter) : Prop where
  enabled : filter.binderRunnableTraceEnabled = true
  linked : filter.transactions.Linked
  inRange : filter.states.InRange

/-- The step is one of the bookkeeping: the maps stay linked and keep others. -/
def StepConsistent (filter : CpuFilter) (call : CpuCall) : Prop :=
  (∀ next, filter.step call = some next → next.transactions.Linked) ∧ filter.KeepsOthers call

variable {filter next : CpuFilter}

theorem transactions_insertSwitchEvent {event : SwitchEvent} (bookkeeping : filter.Bookkeeping)
    (stepped : filter.step (.insertSwitchEvent event) = some next) :
    next.binderRunnableTraceEnabled = true ∧ next.states.InRange ∧
      ∃ threadStateRow, next.transactions = filter.transactions.insertSwitch event
        (filter.slices.insertSwitch event).2 threadStateRow ∧
        (threadStateRow = none ↔ event.prevPid = 0 ∨ event.prevPid ≠ event.nextPid ∧
          filter.states.isChangeCpu event = true) := by
  rcases map_eq_some_iff.1 stepped with ⟨⟨states, row⟩, switched, rfl⟩
  rcases ThreadStates.row_insertSwitch bookkeeping.inRange switched with
    ⟨inRange, noRow⟩
  refine ⟨bookkeeping.enabled, inRange, row, ?_, noRow⟩
  simp only [bookkeeping.enabled, if_true]
  rfl

theorem keepsOthers_iff {call : CpuCall} (stepped : filter.step call = some next) :
    filter.KeepsOthers call ↔ ∀ transactionId,
      filter.transactionOf call = some transactionId → ∀ thread other,
        filter.transactions.iTidToTransaction thread = some other → other ≠ transactionId →
          next.transactions.iTidToTransaction thread ≠ none := by
  constructor
  · intro keeps transactionId isOf
    exact keeps transactionId next isOf stepped
  · intro keeps transactionId reached isOf sameStep
    rw [stepped, some.injEq] at sameStep
    subst sameStep
    exact keeps transactionId isOf

theorem keepsOthers_switch_iff {event : SwitchEvent} (bookkeeping : filter.Bookkeeping)
    (stepped : filter.step (.insertSwitchEvent event) = some next) :
    filter.KeepsOthers (.insertSwitchEvent event) ↔
      filter.BinderStep (.insertSwitchEvent event) := by
  rcases transactions_insertSwitchEvent bookkeeping stepped with
    ⟨_, _, threadStateRow, transactions, noRow⟩
  rw [keepsOthers_iff stepped, transactions]
  have noSlice : (filter.slices.insertSwitch event).2 = none ↔
    filter.slices.cpuToRowSched event.cpu = none := by
    rw [SchedSlices.closed_insertSwitch, map_eq_none_iff]
  have clears : (event.prevState ≠ taskNew ∨ (filter.slices.insertSwitch event).2 = none ∨
    threadStateRow = none) ↔ filter.ClearsTransaction event := by
    rw [noSlice, noRow]
    rfl
  have atTransaction :=
    fun transactionId (waits : filter.transactions.iTidToTransaction event.prevPid =
      some transactionId) =>
      (BinderTransactions.keeps_insertSwitch_iff bookkeeping.linked waits
        (filter.slices.insertSwitch event).2 threadStateRow).trans
        (imp_congr_left clears)
  constructor
  · intro keeps transactionId other waits isCleared waitsToo
    exact (atTransaction transactionId waits).1 (keeps transactionId waits) isCleared other waitsToo
  · intro condition transactionId waits
    exact (atTransaction transactionId waits).2 fun isCleared other waitsToo =>
      condition transactionId other waits isCleared waitsToo

theorem transactions_insertRunnableBinderRecvEvent
    (filter : CpuFilter) (transactionId iTid : UInt32) :
    (filter.insertRunnableBinderRecvEvent transactionId iTid).transactions =
      match filter.transactions.transactionIdToInfo transactionId with
      | none => filter.transactions
      | some _ =>
        filter.transactions.transactionClear invalidUint32 transactionId := by
  unfold insertRunnableBinderRecvEvent
  cases filter.transactions.transactionIdToInfo transactionId with
  | none => rfl
  | some info => cases filter.receivedRows transactionId iTid <;> rfl

theorem keepsOthers_recv_iff (filter : CpuFilter) (transactionId iTid : UInt32) :
    filter.KeepsOthers (.insertRunnableBinderRecvEvent transactionId iTid) ↔ filter.BinderStep
      (.insertRunnableBinderRecvEvent transactionId iTid) := by
  have stepped : filter.step (.insertRunnableBinderRecvEvent transactionId iTid) =
    some (filter.insertRunnableBinderRecvEvent transactionId iTid) := rfl
  rw [keepsOthers_iff stepped, transactions_insertRunnableBinderRecvEvent]
  simp only [transactionOf, some.injEq, forall_eq', BinderStep]
  cases known : filter.transactions.transactionIdToInfo transactionId with
  | none =>
    simp only [not_mem_none, false_imp_iff, implies_true, iff_true]
    intro thread other waits _
    rw [waits]
    simp
  | some info =>
    simp only [mem_some_iff, forall_eq']
    rw [BinderTransactions.keeps_transactionClear_iff, known, map_some]
    simp only [some.injEq, eq_comm]

theorem stepConsistent_iff {call : CpuCall} (bookkeeping : filter.Bookkeeping)
    (isBinder : IsBinderCall call) (stepped : filter.step call = some next) :
    filter.StepConsistent call ↔ filter.BinderStep call := by
  unfold StepConsistent
  cases call with
  | insertSwitchEvent event =>
    rw [keepsOthers_switch_iff bookkeeping stepped]
    refine and_iff_right ?_
    rintro next stepped
    rcases transactions_insertSwitchEvent bookkeeping stepped with
      ⟨_, _, threadStateRow, transactions, _⟩
    rw [transactions]
    exact bookkeeping.linked.insertSwitch event _ threadStateRow
  | insertRunnableBinderRecvEvent transactionId iTid =>
    rw [keepsOthers_recv_iff]
    refine and_iff_right ?_
    rintro next ⟨⟩
    rw [transactions_insertRunnableBinderRecvEvent]
    split
    · exact bookkeeping.linked
    · exact bookkeeping.linked.transactionClear _ _
  | insertRunnableBinderEvent transactionId iTid =>
    have keeps : filter.KeepsOthers (.insertRunnableBinderEvent transactionId iTid) := by
      rintro _ _ ⟨⟩ ⟨⟩ thread other waits _
      by_cases same : thread = iTid <;>
        simp [BinderTransactions.insertRunnableBinderEvent, same, waits]
    have linked :=
      BinderTransactions.linked_insertRunnableBinderEvent_iff bookkeeping.linked transactionId iTid
    constructor
    · intro consistent
      exact linked.1 (consistent.1 _ rfl)
    · intro condition
      refine ⟨?_, keeps⟩
      rintro next ⟨⟩
      exact linked.2 condition
  | _ => exact absurd isBinder id

theorem Bookkeeping.step {call : CpuCall} (bookkeeping : filter.Bookkeeping)
    (isBinder : IsBinderCall call) (consistent : filter.StepConsistent call)
    (stepped : filter.step call = some next) : next.Bookkeeping := by
  have linked := consistent.1 next stepped
  cases call with
  | insertSwitchEvent event =>
    rcases transactions_insertSwitchEvent bookkeeping stepped with
      ⟨enabled, inRange, _⟩
    exact ⟨enabled, linked, inRange⟩
  | insertRunnableBinderEvent transactionId iTid =>
    cases stepped
    exact ⟨bookkeeping.enabled, linked, bookkeeping.inRange⟩
  | insertRunnableBinderRecvEvent transactionId iTid =>
    cases stepped
    refine ⟨?_, linked, ?_⟩
    · have enabled := bookkeeping.enabled
      unfold insertRunnableBinderRecvEvent
      split
      · exact enabled
      · split <;> exact enabled
    · have inRange := bookkeeping.inRange
      unfold insertRunnableBinderRecvEvent
      split
      · exact inRange
      · split
        · intro itid thread known
          simpa [ThreadStates.updateState] using inRange itid thread known
        · exact inRange
  | _ => exact absurd isBinder id

theorem bookkeeping_initial : (initial true).Bookkeeping where
  enabled := rfl
  linked := by
    intro thread transactionId waits
    simp [initial, BinderTransactions.initial] at waits
  inRange := by
    intro itid thread known
    simp [initial, ThreadStates.initial] at known

end CpuFilter

/--
With tracing enabled, along a run of binder and switch events, the maps are
linked in every state reached and every operation keeps the threads of other
transactions waiting, exactly when every operation meets its condition.
-/
theorem binder_bookkeeping_iff (calls : List CpuCall) (filter : CpuFilter)
    (kinds : ∀ call ∈ calls, CpuFilter.IsBinderCall call) (reached :
      runPartial CpuFilter.step (.initial true) calls = some filter) :
    ((∀ past between, past <+: calls →
      runPartial CpuFilter.step (.initial true) past = some between →
        between.transactions.Linked) ∧
      EachPartial CpuFilter.step CpuFilter.KeepsOthers (.initial true) calls) ↔
      EachPartial CpuFilter.step CpuFilter.BinderStep (.initial true) calls := by
  have linkedSteps :=
    reached_iff_eachPartial CpuFilter.step (fun filter => filter.transactions.Linked) calls
      CpuFilter.bookkeeping_initial.linked
  refine (and_congr_left' linkedSteps).trans ?_
  rw [← eachPartial_and]
  refine eachPartial_congr CpuFilter.Bookkeeping ?_ ?_ CpuFilter.bookkeeping_initial kinds reached
  · intro state call next bookkeeping isBinder stepped
    exact CpuFilter.stepConsistent_iff bookkeeping isBinder stepped
  · intro state call next bookkeeping isBinder consistent stepped
    exact bookkeeping.step isBinder consistent stepped

def receivedOnce : List CpuCall :=
  [.insertSwitchEvent ⟨10, 0, 0, 0, 5, 120⟩, .insertRunnableBinderEvent 1 5,
    .insertSwitchEvent ⟨20, 0, 5, 2048, 6, 120⟩,
    .insertRunnableBinderRecvEvent 1 6]

theorem binder_bookkeeping_receivedOnce :
    ∃ filter, runPartial CpuFilter.step (.initial true) receivedOnce = some filter ∧
      filter.transactions.Linked ∧
      EachPartial CpuFilter.step CpuFilter.KeepsOthers (.initial true) receivedOnce := by
  have kinds : ∀ call ∈ receivedOnce, CpuFilter.IsBinderCall call := by
    simp [receivedOnce, CpuFilter.IsBinderCall]
  have condition : EachPartial CpuFilter.step CpuFilter.BinderStep (.initial true)
    receivedOnce := by
    refine ⟨?_, ?_⟩
    · rintro transactionId other ⟨⟩
    rintro first ⟨⟩
    refine ⟨?_, ?_⟩
    · rintro thread _ ⟨⟩
    rintro second ⟨⟩
    refine ⟨?_, ?_⟩
    · rintro transactionId other _ _ ⟨⟩
    rintro third ⟨⟩
    refine ⟨?_, fun _ _ => trivial⟩
    rintro info ⟨⟩ thread other (rfl | rfl) waits
    · cases waits
    · cases waits
      rfl
  have both := (binder_bookkeeping_iff receivedOnce _ kinds rfl).2 condition
  exact ⟨_, rfl, both.1 receivedOnce _ (prefix_refl _) rfl, both.2⟩

def stateIsThread : List CpuCall := [.insertRunnableBinderEvent 1 5, .insertRunnableBinderEvent 2 1]

theorem not_keepsOthers_stateIsThread :
    ∃ filter, runPartial CpuFilter.step (.initial true) stateIsThread = some filter ∧
      ¬ filter.KeepsOthers (.insertSwitchEvent ⟨10, 0, 5, 1, 6, 120⟩) := by
  refine ⟨_, rfl, ?_⟩
  intro keeps
  exact keeps 1 _ rfl rfl 1 2 rfl (by decide) rfl

end SysAnalyzer.Filter
