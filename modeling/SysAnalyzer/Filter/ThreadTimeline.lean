import SysAnalyzer.Foundation.KeyedRows
import SysAnalyzer.Filter.CpuFilter

/-!
# The timeline of a thread

What the CPU filter keeps about one thread is a timeline: the rows it has left,
the row it is in, and a wakeup that waits until the thread is seen again.  A
switch moves the thread to a new row, or two when a wakeup is waiting; a CPU
that finds another thread gone abandons the row that thread was in.

`Represents` relates a state of the filter to the timelines of the threads, and
each part of `InsertSwitchEvent` is shown to do one of these moves and to leave
the other threads alone.
-/

namespace SysAnalyzer.Filter

open Foundation Option
open Base

/-! ## Timelines -/

def closeRow (ts : UInt64) (row : ThreadStateRow) : ThreadStateRow :=
  { row with dur := ts - row.ts }

def openRow (ts : UInt64) (cpu itid : UInt32) (state : UInt64) : ThreadStateRow :=
  ⟨ts, invalidTime, cpu, itid, ThreadStates.narrowState state⟩

@[simp]
theorem itid_openRow (ts : UInt64) (cpu itid : UInt32) (state : UInt64) :
    (openRow ts cpu itid state).itid = itid :=
  rfl

/-- The row a thread is in, with the state that is remembered for it. -/
structure CurrentRow where
  row : ThreadStateRow
  number : Nat
  state : UInt64

/-- The rows a thread has left, the row it is in and its pending wakeup. -/
structure ThreadTimeline where
  past : List (ThreadStateRow × Nat)
  current : Option CurrentRow
  wakeup : Option UInt64

namespace ThreadTimeline

def rows (timeline : ThreadTimeline) : List (ThreadStateRow × Nat) :=
  timeline.past ++ (timeline.current.map fun current => (current.row, current.number)).toList

def enter (timeline : ThreadTimeline) (ts : UInt64) (next : CurrentRow) : ThreadTimeline where
  past :=
    timeline.past ++ (timeline.current.map fun current =>
      (closeRow ts current.row, current.number)).toList
  current := some next
  wakeup := timeline.wakeup

def abandon (timeline : ThreadTimeline) : ThreadTimeline := ⟨timeline.rows, none, timeline.wakeup⟩

def forgetWakeup (timeline : ThreadTimeline) : ThreadTimeline := { timeline with wakeup := none }

def pending (timeline : ThreadTimeline) : Option UInt64 :=
  if (timeline.current.map CurrentRow.state).getD taskInvalid = taskRunning then none
  else timeline.wakeup

def wokenRow (itid : UInt32) (wakeup : UInt64) (number : Nat) : CurrentRow :=
  ⟨openRow wakeup invalidCpu itid taskRunnable, number, taskRunnable⟩

/-- Let the wakeup take effect. -/
def wake (timeline : ThreadTimeline) (itid : UInt32) (number : Nat) : ThreadTimeline :=
  match timeline.pending with
  | some wakeup => (timeline.enter wakeup (wokenRow itid wakeup number)).forgetWakeup
  | none => timeline.forgetWakeup

end ThreadTimeline

def threadRowsOf (itid : UInt32) (rows : List ThreadStateRow) : List (ThreadStateRow × Nat) :=
  keptRows (fun row => decide (row.itid = itid)) rows

theorem threadRowsOf_concat (rows : List ThreadStateRow) (row : ThreadStateRow) (itid : UInt32) :
    threadRowsOf itid (rows ++ [row]) =
      if row.itid = itid then threadRowsOf itid rows ++ [(row, rows.length)]
      else threadRowsOf itid rows := by
  simp [threadRowsOf, keptRows_concat]

/-- Rows are appended, and open ones are closed; nothing else happens to them. -/
def Extends (rows extended : List ThreadStateRow) : Prop :=
  ∀ (number : Nat) (row : ThreadStateRow), rows[number]? = some row →
    ∃ later, extended[number]? = some later ∧
      (later = row ∨ row.dur = invalidTime ∧ ∃ ts, later = closeRow ts row)

theorem Extends.refl (rows : List ThreadStateRow) : Extends rows rows :=
  fun _ row found => ⟨row, found, .inl rfl⟩

theorem Extends.trans {first second third : List ThreadStateRow}
    (earlier : Extends first second) (later : Extends second third) : Extends first third := by
  intro number row found
  rcases earlier number row found with ⟨middle, atMiddle, change⟩
  rcases later number middle atMiddle with ⟨final, atFinal, laterChange⟩
  refine ⟨final, atFinal, ?_⟩
  rcases change with rfl | ⟨isOpen, ts, rfl⟩
  · exact laterChange
  · rcases laterChange with rfl | ⟨_, after, rfl⟩
    · exact .inr ⟨isOpen, ts, rfl⟩
    · exact .inr ⟨isOpen, after, rfl⟩

theorem Extends.length_le {rows extended : List ThreadStateRow}
    (grows : Extends rows extended) : rows.length ≤ extended.length := by
  rcases Nat.eq_zero_or_pos rows.length with empty | nonempty
  · omega
  · have inRange : rows.length - 1 < rows.length := by omega
    rcases grows _ _ (List.getElem?_eq_getElem inRange) with ⟨_, found, _⟩
    have := (List.getElem?_eq_some_iff.1 found).1
    omega

theorem extends_concat (rows : List ThreadStateRow) (row : ThreadStateRow) :
    Extends rows (rows ++ [row]) := by
  intro number found atFound
  have inRange := (List.getElem?_eq_some_iff.1 atFound).1
  exact ⟨found, by rw [List.getElem?_append_left inRange, atFound], .inl rfl⟩

theorem extends_updateDuration (rows : List ThreadStateRow) (index : Nat) (ts : UInt64) :
    Extends rows (ThreadStates.updateDuration rows index ts) := by
  intro number row found
  by_cases here : index = number
  · subst here
    by_cases isOpen : row.dur = invalidTime
    · refine ⟨closeRow ts row, ?_, .inr ⟨isOpen, ts, rfl⟩⟩
      simp [ThreadStates.updateDuration, found, isOpen, closeRow]
    · refine ⟨row, ?_, .inl rfl⟩
      simp [ThreadStates.updateDuration, found, isOpen]
  · exact ⟨row, by simp [ThreadStates.updateDuration, here, found], .inl rfl⟩

/-! ## The filter and the timelines -/

/-- The state of the filter holds the timeline of a thread. -/
structure Represents (states : ThreadStates) (itid : UInt32)
    (timeline : ThreadTimeline) : Prop where
  rows : threadRowsOf itid states.rows = timeline.rows
  current : states.internalTidToRowThreadState itid =
    timeline.current.map fun current => ⟨current.number, current.state⟩
  wakeup : states.toRunnableTid itid = timeline.wakeup
  isOpen : ∀ current ∈ timeline.current, current.row.dur = invalidTime

/-- What a move of one thread leaves alone. -/
structure Frames (states next : ThreadStates) (itid : UInt32) : Prop where
  others : ∀ other timeline, other ≠ itid → Represents states other timeline →
    Represents next other timeline
  onCpu : next.cpuToRowThreadState = states.cpuToRowThreadState
  grows : Extends states.rows next.rows

theorem Frames.refl (states : ThreadStates) (itid : UInt32) : Frames states states itid :=
  ⟨fun _ _ _ represents => represents, rfl, Extends.refl _⟩

theorem Frames.trans {states middle next : ThreadStates} {itid : UInt32}
    (first : Frames states middle itid) (second : Frames middle next itid) :
    Frames states next itid where
  others := fun other timeline isOther represents =>
    second.others other timeline isOther (first.others other timeline isOther represents)
  onCpu := second.onCpu.trans first.onCpu
  grows := first.grows.trans second.grows

variable {states next : ThreadStates} {itid : UInt32}
  {timeline : ThreadTimeline}

section

variable (represents : Represents states itid timeline)
include represents

theorem Represents.rowOf :
    states.rowOfInternalTidInStateTable itid = timeline.current.map CurrentRow.number := by
  rw [ThreadStates.rowOfInternalTidInStateTable, represents.current, map_map]
  rfl

theorem Represents.stateOf : states.stateOfInternalTidInStateTable itid =
    (timeline.current.map CurrentRow.state).getD taskInvalid := by
  rw [ThreadStates.stateOfInternalTidInStateTable, represents.current]
  cases timeline.current <;> rfl

theorem Represents.split {current : CurrentRow} (isCurrent : timeline.current = some current) :
    threadRowsOf itid states.rows = timeline.past ++ [(current.row, current.number)] := by
  simpa [ThreadTimeline.rows, isCurrent] using represents.rows

theorem Represents.getElem?_current {current : CurrentRow}
    (isCurrent : timeline.current = some current) :
    states.rows[current.number]? = some current.row ∧ current.row.itid = itid := by
  rcases getElem?_of_keptRows_last (represents.split isCurrent) with
    ⟨found, isOwn⟩
  exact ⟨found, of_decide_eq_true isOwn⟩

theorem Represents.closeLast (ts : UInt64) (next : CurrentRow) :
    threadRowsOf itid (states.closeLast (states.rowOfInternalTidInStateTable itid) ts).rows =
      (timeline.enter ts next).past := by
  rw [represents.rowOf]
  cases isCurrent : timeline.current with
  | none =>
    simpa [ThreadStates.closeLast, ThreadTimeline.enter,
      ThreadTimeline.rows, isCurrent] using represents.rows
  | some current =>
    have isOpen := represents.isOpen current (by simp [isCurrent])
    have closed : threadRowsOf itid (ThreadStates.updateDuration states.rows current.number ts) =
      timeline.past ++ [(if current.row.dur = invalidTime then
        { current.row with dur := ts - current.row.ts }
        else current.row,
        current.number)] :=
      keptRows_modify_last (fun row => by split <;> rfl) (represents.split isCurrent)
    simpa [ThreadStates.closeLast, ThreadTimeline.enter, isCurrent, isOpen, closeRow] using closed

theorem Represents.closeLast_other (ts : UInt64) {other : UInt32} (isOther : other ≠ itid) :
    threadRowsOf other (states.closeLast (states.rowOfInternalTidInStateTable itid) ts).rows =
      threadRowsOf other states.rows := by
  rw [represents.rowOf]
  cases isCurrent : timeline.current with
  | none => rfl
  | some current =>
    rcases represents.getElem?_current isCurrent with ⟨found, isOwn⟩
    refine keptRows_modify_of_not_kept (fun row => by split <;> rfl) ?_
    intro row atRow
    rw [found, some.injEq] at atRow
    subst atRow
    simpa [isOwn] using Ne.symm isOther

end

theorem extends_closeLast (states : ThreadStates) (lastRow : Option Nat) (ts : UInt64) :
    Extends states.rows (states.closeLast lastRow ts).rows := by
  cases lastRow with
  | none => exact Extends.refl _
  | some row => exact extends_updateDuration states.rows row ts

theorem closeLast_eq (states : ThreadStates) (lastRow : Option Nat) (ts : UInt64) :
    states.closeLast lastRow ts = { states with rows := (states.closeLast lastRow ts).rows } := by
  cases lastRow <;> rfl

theorem length_closeLast (states : ThreadStates) (lastRow : Option Nat) (ts : UInt64) :
    (states.closeLast lastRow ts).rows.length = states.rows.length := by
  cases lastRow <;> simp [ThreadStates.closeLast, ThreadStates.updateDuration]

theorem appendOpen_eq_some {ts : UInt64} {cpu : UInt32} {state : UInt64} {number : Nat} (appended :
    states.appendOpen ts cpu itid state = some (number, next)) :
    number = states.rows.length ∧ next = { states with
      rows := states.rows ++ [openRow ts cpu itid state]
      internalTidToRowThreadState :=
        Function.update states.internalTidToRowThreadState itid
          (some ⟨number, state⟩) } := by
  unfold ThreadStates.appendOpen ThreadStates.appendThreadState at appended
  split at appended
  · simp only [map_some, some.injEq, Prod.mk.injEq] at appended
    rcases appended with ⟨rfl, rfl⟩
    exact ⟨rfl, rfl⟩
  · simp at appended

section

variable (represents : Represents states itid timeline)
include represents

theorem Represents.enter {ts begins : UInt64} {cpu : UInt32} {state : UInt64} {number : Nat}
    (appended : (states.closeLast (states.rowOfInternalTidInStateTable itid)
      ts).appendOpen begins cpu itid state = some (number, next)) :
    number = states.rows.length ∧ Represents next itid (timeline.enter ts
      ⟨openRow begins cpu itid state, number, state⟩) ∧ Frames states next itid := by
  rcases appendOpen_eq_some appended with ⟨numbered, rfl⟩
  rw [length_closeLast] at numbered
  subst numbered
  refine ⟨rfl, ⟨?_, ?_, ?_, ?_⟩, ⟨?_, ?_, ?_⟩⟩
  · rw [threadRowsOf_concat, itid_openRow, if_pos rfl, length_closeLast,
      represents.closeLast ts ⟨openRow begins cpu itid state, 0, state⟩]
    simp [ThreadTimeline.rows, ThreadTimeline.enter]
  · simp [ThreadTimeline.enter]
  · rw [closeLast_eq]
    exact represents.wakeup
  · simp [ThreadTimeline.enter, openRow]
  · intro other otherTimeline isOther ofOther
    refine ⟨?_, ?_, ?_, ofOther.isOpen⟩
    · rw [threadRowsOf_concat, itid_openRow, if_neg (Ne.symm isOther),
        represents.closeLast_other ts isOther]
      exact ofOther.rows
    · rw [closeLast_eq]
      simpa [isOther] using ofOther.current
    · rw [closeLast_eq]
      exact ofOther.wakeup
  · rw [closeLast_eq]
  · exact (extends_closeLast states _ ts).trans (extends_concat _ _)

theorem Represents.forgetWakeup : Represents { states with
    toRunnableTid := Function.update states.toRunnableTid itid none }
    itid timeline.forgetWakeup ∧ Frames states { states with
      toRunnableTid := Function.update states.toRunnableTid itid none }
    itid := by
  refine ⟨⟨represents.rows, represents.current, by
    simp [ThreadTimeline.forgetWakeup], represents.isOpen⟩,
    ⟨?_, rfl, Extends.refl _⟩⟩
  intro other otherTimeline isOther ofOther
  exact ⟨ofOther.rows, ofOther.current, by simpa [isOther] using ofOther.wakeup, ofOther.isOpen⟩

theorem Represents.wake (checked : states.checkWakeupEvent itid = some next) :
    Represents next itid (timeline.wake itid states.rows.length) ∧ Frames states next itid := by
  unfold ThreadStates.checkWakeupEvent at checked
  rw [represents.wakeup, represents.stateOf] at checked
  have forgotten := represents.forgetWakeup
  cases waits : timeline.wakeup with
  | none =>
    simp only [waits, some.injEq] at checked
    subst checked
    have same : timeline.wake itid states.rows.length = timeline := by
      cases timeline
      simp_all [ThreadTimeline.wake, ThreadTimeline.pending, ThreadTimeline.forgetWakeup]
    rw [same]
    exact ⟨represents, Frames.refl states itid⟩
  | some wakeup =>
    simp only [waits] at checked
    by_cases isRunning : (timeline.current.map CurrentRow.state).getD taskInvalid = taskRunning
    · rw [if_pos isRunning, some.injEq] at checked
      subst checked
      simpa [ThreadTimeline.wake, ThreadTimeline.pending, isRunning] using forgotten
    · rw [if_neg isRunning] at checked
      rcases map_eq_some_iff.1 checked with
        ⟨⟨number, moved⟩, appended, rfl⟩
      rcases forgotten.1.enter appended with ⟨numbered, entered, framed⟩
      subst numbered
      refine ⟨?_, forgotten.2.trans framed⟩
      simpa [ThreadTimeline.wake, ThreadTimeline.pending, isRunning, waits,
        ThreadTimeline.enter, ThreadTimeline.forgetWakeup,
        ThreadTimeline.wokenRow] using entered

end

def ThreadTimeline.run (timeline : ThreadTimeline) (event : SwitchEvent)
    (woken number : Nat) : ThreadTimeline :=
  (timeline.wake event.nextPid woken).enter event.ts
    ⟨openRow event.ts event.cpu event.nextPid taskRunning, number, taskRunning⟩

theorem Represents.beginNext {event : SwitchEvent} {number : Nat}
    (represents : Represents states event.nextPid timeline)
    (begun : states.beginNext event = some (number, next)) :
    Represents next event.nextPid (timeline.run event states.rows.length number) ∧
      Frames states next event.nextPid ∧ states.rows.length ≤ number := by
  unfold ThreadStates.beginNext at begun
  rcases bind_eq_some_iff.1 begun with ⟨woken, checked, appended⟩
  rcases represents.wake checked with ⟨ofWoken, wakeFrames⟩
  rcases ofWoken.enter appended with ⟨numbered, entered, enterFrames⟩
  refine ⟨entered, wakeFrames.trans enterFrames, ?_⟩
  rw [numbered]
  exact wakeFrames.grows.length_le

def abandonedThread (states : ThreadStates) (event : SwitchEvent) : Option UInt32 :=
  ((states.abandonedRow event).bind (states.rows[·]?)).map ThreadStateRow.itid

theorem Represents.replaceOnCpu (represents : Represents states itid timeline) (event : SwitchEvent)
    (index : Nat) : Represents (states.replaceOnCpu event index) itid
      (if abandonedThread states event = some itid then timeline.abandon else timeline) := by
  unfold ThreadStates.replaceOnCpu abandonedThread
  cases (states.abandonedRow event).bind (states.rows[·]?) with
  | none => exact ⟨represents.rows, represents.current, represents.wakeup,
    represents.isOpen⟩
  | some row =>
    by_cases isAbandoned : row.itid = itid
    · subst isAbandoned
      refine ⟨?_, ?_, ?_, ?_⟩
      · simpa [ThreadTimeline.abandon, ThreadTimeline.rows,
          ThreadStates.clearInternalTidInStateTable] using represents.rows
      · simp [ThreadTimeline.abandon, ThreadStates.clearInternalTidInStateTable]
      · simpa [ThreadTimeline.abandon,
          ThreadStates.clearInternalTidInStateTable] using represents.wakeup
      · simp [ThreadTimeline.abandon]
    · refine ⟨?_, ?_, ?_, ?_⟩
      · simpa [isAbandoned, ThreadStates.clearInternalTidInStateTable] using represents.rows
      · simpa [isAbandoned, Ne.symm isAbandoned, ThreadStates.clearInternalTidInStateTable] using
          represents.current
      · simpa [isAbandoned, ThreadStates.clearInternalTidInStateTable] using represents.wakeup
      · simpa [isAbandoned] using represents.isOpen

theorem onCpu_replaceOnCpu (states : ThreadStates) (event : SwitchEvent) (index : Nat) :
    (states.replaceOnCpu event index).cpuToRowThreadState =
      Function.update states.cpuToRowThreadState event.cpu (some index) := by
  unfold ThreadStates.replaceOnCpu
  cases (states.abandonedRow event).bind (states.rows[·]?) <;> rfl

theorem rows_replaceOnCpu (states : ThreadStates) (event : SwitchEvent) (index : Nat) :
    (states.replaceOnCpu event index).rows = states.rows := by
  unfold ThreadStates.replaceOnCpu
  cases (states.abandonedRow event).bind (states.rows[·]?) <;> rfl

theorem Represents.isChangeCpu {event : SwitchEvent}
    (represents : Represents states event.prevPid timeline) :
    states.isChangeCpu event = (timeline.current.any fun current =>
      decide (event.cpu ≠ current.row.cpu ∧ current.row.state = taskRunning ∧
        event.ts = current.row.ts)) := by
  unfold ThreadStates.isChangeCpu
  rw [represents.rowOf]
  cases isCurrent : timeline.current with
  | none => rfl
  | some current => simp [(represents.getElem?_current isCurrent).1]

def leftRow (event : SwitchEvent) (number : Nat) : CurrentRow :=
  ⟨openRow event.ts invalidCpu event.prevPid event.prevState, number, event.prevState⟩

theorem represents_noted (represents : Represents states itid timeline)
    (noted : StdMap UInt32 Nat) :
    Represents { states with pidToThreadSliceRow := noted } itid timeline :=
  ⟨represents.rows, represents.current, represents.wakeup, represents.isOpen⟩

variable {row : Option Nat}

theorem switchPrev_eq_some {event : SwitchEvent} (notIdle : event.prevPid ≠ 0)
    (staysOnCpu : states.isChangeCpu event = false)
    (switched : states.switchPrev event = some (next, row)) :
    ∃ ready number moved noted, (match states.rowOfInternalTidInStateTable event.prevPid with
      | some last =>
        (states.checkWakeupEvent event.prevPid).map (·.closeLast (some last) event.ts)
      | none => some states) = some ready ∧
      ready.appendOpen event.ts invalidCpu event.prevPid event.prevState = some (number, moved) ∧
      next = { moved with pidToThreadSliceRow := noted } ∧
      row = some number := by
  unfold ThreadStates.switchPrev at switched
  rw [if_neg (by simp [notIdle, staysOnCpu])] at switched
  -- the two branches share what follows them
  have shared : ∃ ready, (match states.rowOfInternalTidInStateTable event.prevPid with
    | some last =>
      (states.checkWakeupEvent event.prevPid).map (·.closeLast (some last) event.ts)
    | none => some states) = some ready ∧
    ∃ appended, ready.appendOpen event.ts invalidCpu event.prevPid
      event.prevState = some appended ∧
      (if event.prevState = taskUninterruptible ∨ event.prevState = taskDk then
        { appended.2 with
          pidToThreadSliceRow :=
            Function.update appended.2.pidToThreadSliceRow
              event.prevPid (some appended.1) }
      else appended.2) = next ∧
      some appended.1 = row := by
    cases known : states.rowOfInternalTidInStateTable event.prevPid with
    | none =>
      simp only [known] at switched
      rcases bind_eq_some_iff.1 switched with ⟨ready, isReady, rest⟩
      rcases bind_eq_some_iff.1 rest with
        ⟨appended, isAppended, finished⟩
      cases finished
      exact ⟨ready, isReady, appended, isAppended, rfl, rfl⟩
    | some last =>
      simp only [known] at switched
      rcases bind_eq_some_iff.1 switched with ⟨ready, isReady, rest⟩
      rcases bind_eq_some_iff.1 rest with
        ⟨appended, isAppended, finished⟩
      cases finished
      exact ⟨ready, isReady, appended, isAppended, rfl, rfl⟩
  rcases shared with
    ⟨ready, isReady, ⟨number, moved⟩, appended, rfl, rfl⟩
  by_cases blocked : event.prevState = taskUninterruptible ∨ event.prevState = taskDk
  · exact ⟨ready, number, moved, _, isReady, appended, by rw [if_pos blocked], rfl⟩
  · exact ⟨ready, number, moved, moved.pidToThreadSliceRow, isReady, appended,
      by rw [if_neg blocked], rfl⟩

def ThreadTimeline.stop (timeline : ThreadTimeline) (event : SwitchEvent)
    (number : Nat) : ThreadTimeline :=
  (match timeline.current with
    | some _ => timeline.forgetWakeup
    | none => timeline).enter event.ts (leftRow event number)

theorem Frames.noted (framed : Frames states next itid) (noted : StdMap UInt32 Nat) :
    Frames states { next with pidToThreadSliceRow := noted } itid :=
  ⟨fun other timeline isOther ofOther =>
    represents_noted (framed.others other timeline isOther ofOther) noted,
    framed.onCpu, framed.grows⟩

section

variable {event : SwitchEvent}
  (represents : Represents states event.prevPid timeline)
include represents

theorem Represents.switchPrev (notIdle : event.prevPid ≠ 0)
    (staysOnCpu : states.isChangeCpu event = false)
    (noWakeup : timeline.current ≠ none → timeline.pending = none)
    (switched : states.switchPrev event = some (next, row)) :
    ∃ number, states.rows.length ≤ number ∧
      Represents next event.prevPid (timeline.stop event number) ∧
      Frames states next event.prevPid := by
  rcases switchPrev_eq_some notIdle staysOnCpu switched with
    ⟨ready, number, moved, noted, isReady, appended, rfl, _⟩
  have known := represents.rowOf
  refine ⟨number, ?_⟩
  cases isCurrent : timeline.current with
  | none =>
    rw [isCurrent, map_none] at known
    rw [known, some.injEq] at isReady
    subst isReady
    have closed : states.closeLast (states.rowOfInternalTidInStateTable event.prevPid)
      event.ts = states := by
      rw [known]
      rfl
    rw [← closed] at appended
    rcases represents.enter appended with ⟨rfl, entered, framed⟩
    refine ⟨le_refl _, ?_, framed.noted noted⟩
    simpa [ThreadTimeline.stop, isCurrent, leftRow] using represents_noted entered noted
  | some current =>
    rw [isCurrent, map_some] at known
    rw [known] at isReady
    rcases map_eq_some_iff.1 isReady with ⟨woken, checked, rfl⟩
    rcases represents.wake checked with ⟨ofWoken, wakeFrames⟩
    rw [ThreadTimeline.wake, noWakeup (by simp [isCurrent])] at ofWoken
    have sameRow : woken.rowOfInternalTidInStateTable event.prevPid = some current.number := by
      rw [ofWoken.rowOf]
      simp [ThreadTimeline.forgetWakeup, isCurrent]
    rw [← sameRow] at appended
    rcases ofWoken.enter appended with ⟨numbered, entered, framed⟩
    refine ⟨?_, ?_, (wakeFrames.trans framed).noted noted⟩
    · rw [numbered]
      exact wakeFrames.grows.length_le
    · simpa [ThreadTimeline.stop, isCurrent, leftRow] using represents_noted entered noted

/--
With a pending wakeup, the row that the wakeup opens stays open: the row looked
up before it is closed instead.
-/
theorem Represents.switchPrev_stale {wakeup : UInt64} (notIdle : event.prevPid ≠ 0)
    (staysOnCpu : states.isChangeCpu event = false)
    (known : timeline.current ≠ none) (pending : timeline.pending = some wakeup)
    (switched : states.switchPrev event = some (next, row)) :
    ∃ earlier woken left, threadRowsOf event.prevPid next.rows = earlier ++
      [(openRow wakeup invalidCpu event.prevPid taskRunnable, woken)] ++
      [(openRow event.ts invalidCpu event.prevPid event.prevState, left)] ∧
      states.rows.length ≤ woken ∧ states.rows.length ≤ left := by
  rcases switchPrev_eq_some notIdle staysOnCpu switched with
    ⟨ready, number, moved, noted, isReady, appended, rfl, _⟩
  rcases ne_none_iff_exists'.1 known with ⟨current, isCurrent⟩
  rw [represents.rowOf, isCurrent, map_some] at isReady
  rcases map_eq_some_iff.1 isReady with ⟨middle, checked, rfl⟩
  rcases represents.wake checked with ⟨ofMiddle, framed⟩
  rw [ThreadTimeline.wake, pending] at ofMiddle
  rcases appendOpen_eq_some appended with ⟨numbered, rfl⟩
  have inRange : current.number < states.rows.length :=
    (List.getElem?_eq_some_iff.1 (represents.getElem?_current isCurrent).1).1
  have isOther : ¬ states.rows.length = current.number := by omega
  have stillOpen : ∃ earlier, threadRowsOf event.prevPid
    (middle.closeLast (some current.number) event.ts).rows =
      earlier ++ [(openRow wakeup invalidCpu event.prevPid taskRunnable,
        states.rows.length)] := by
    have closed : threadRowsOf event.prevPid
      (middle.closeLast (some current.number) event.ts).rows =
        (threadRowsOf event.prevPid middle.rows).map (changeEntry current.number _) :=
      keptRows_modify current.number fun row => by split <;> rfl
    have opened := ofMiddle.split rfl
    rw [closed, opened, List.map_append]
    refine ⟨_, congrArg _ ?_⟩
    simp [ThreadTimeline.wokenRow, changeEntry, isOther]
  rcases stillOpen with ⟨earlier, stillOpen⟩
  refine ⟨earlier, states.rows.length,
    (middle.closeLast (some current.number) event.ts).rows.length, ?_,
    le_refl _, ?_⟩
  · rw [threadRowsOf_concat, itid_openRow, if_pos rfl, stillOpen]
  · rw [length_closeLast]
    exact framed.grows.length_le

end

/-! ## A whole switch -/

def ThreadStates.currentRow (states : ThreadStates) (itid : UInt32) : Option ThreadStateRow :=
  (states.rowOfInternalTidInStateTable itid).bind (states.rows[·]?)

/-- The wakeup that `CheckWakeupEvent` would let take effect. -/
def ThreadStates.pendingWakeup (states : ThreadStates) (itid : UInt32) : Option UInt64 :=
  if states.stateOfInternalTidInStateTable itid = taskRunning then none
  else states.toRunnableTid itid

theorem Represents.currentRow (represents : Represents states itid timeline) :
    states.currentRow itid = timeline.current.map CurrentRow.row := by
  rw [ThreadStates.currentRow, represents.rowOf]
  cases isCurrent : timeline.current with
  | none => rfl
  | some current => exact (represents.getElem?_current isCurrent).1

theorem Represents.pendingWakeup (represents : Represents states itid timeline) :
    states.pendingWakeup itid = timeline.pending := by
  rw [ThreadStates.pendingWakeup, represents.stateOf, represents.wakeup]
  rfl

/--
A switch that closes every row it should.  A wakeup of the next thread comes
after the row it ends, as `wakes` says; no wakeup of the previous thread is
pending when the thread is in a row; and no duration is the one that marks open
rows.
-/
structure SettledSwitch (wakes : ThreadStateRow → UInt64 → Prop)
    (states : ThreadStates) (event : SwitchEvent) : Prop where
  next : event.nextPid ≠ 0 → match states.pendingWakeup event.nextPid with
    | some wakeup =>
      (∀ row ∈ states.currentRow event.nextPid, wakes row wakeup) ∧
        event.ts - wakeup ≠ invalidTime
    | none => ∀ row ∈ states.currentRow event.nextPid, event.ts - row.ts ≠ invalidTime
  prev : event.prevPid ≠ 0 → event.prevPid ≠ event.nextPid → states.isChangeCpu event = false →
    ∀ row ∈ states.currentRow event.prevPid, states.pendingWakeup event.prevPid = none ∧
      event.ts - row.ts ≠ invalidTime

theorem insertSwitch_eq_some {event : SwitchEvent}
    (switched : states.insertSwitch event = some (next, row)) :
    ∃ middle, states.switchNext event = some middle ∧ middle.switchPrev event = some (next, row) :=
  bind_eq_some_iff.1 switched

theorem switchNext_eq_some {event : SwitchEvent} (notIdle : event.nextPid ≠ 0)
    (switched : states.switchNext event = some next) :
    ∃ number begun, states.beginNext event = some (number, begun) ∧
      next = begun.replaceOnCpu event number := by
  unfold ThreadStates.switchNext at switched
  rw [if_neg notIdle] at switched
  rcases map_eq_some_iff.1 switched with
    ⟨⟨number, begun⟩, isBegun, rfl⟩
  exact ⟨number, begun, isBegun, rfl⟩

theorem switchNext_idle {event : SwitchEvent} (idle : event.nextPid = 0)
    (switched : states.switchNext event = some next) : next = states := by
  unfold ThreadStates.switchNext at switched
  rw [if_pos idle, some.injEq] at switched
  exact switched.symm

theorem switchPrev_skipped {event : SwitchEvent}
    (skipped : event.prevPid = 0 ∨ states.isChangeCpu event = true)
    (switched : states.switchPrev event = some (next, row)) : next = states := by
  unfold ThreadStates.switchPrev at switched
  rw [if_pos skipped, some.injEq, Prod.mk.injEq] at switched
  exact switched.1.symm

theorem ThreadTimeline.pending_run
    (timeline : ThreadTimeline) (event : SwitchEvent) (woken number : Nat) :
    (timeline.run event woken number).pending = none := by
  simp [ThreadTimeline.run, ThreadTimeline.pending, ThreadTimeline.enter]

/-- The row that the `End` branch of a switch leaves open. -/
def ThreadStates.abandonedBySwitch (states : ThreadStates) (event : SwitchEvent) : Option Nat :=
  if event.nextPid = 0 then none
  else (states.beginNext event).bind fun begun => begun.2.abandonedRow event

structure LetsRun (gone : Option UInt32) (states middle : ThreadStates)
    (event : SwitchEvent) : Prop where
  idle : event.nextPid = 0 → middle = states
  notPrev : gone ≠ some event.prevPid
  leaves : ∀ thread, gone = some thread → ∃ number row,
    states.abandonedBySwitch event = some number ∧
      states.cpuToRowThreadState event.cpu = some number ∧
      middle.rows[number]? = some row ∧ row.itid = thread ∧
      row.dur = invalidTime
  keeps : gone = none → states.abandonedBySwitch event = none
  others : ∀ other timeline, other ≠ event.nextPid → gone ≠ some other →
    Represents states other timeline → Represents middle other timeline
  abandons : ∀ other timeline, other ≠ event.nextPid → gone = some other →
    Represents states other timeline → Represents middle other timeline.abandon
  runs : event.nextPid ≠ 0 → ∀ timeline, Represents states event.nextPid timeline → ∃ woken number,
    states.rows.length ≤ woken ∧ states.rows.length ≤ number ∧
      threadRowsOf event.nextPid middle.rows = (timeline.run event woken number).rows ∧
      (gone ≠ some event.nextPid → Represents middle event.nextPid
        (timeline.run event woken number)) ∧
      middle.cpuToRowThreadState = Function.update states.cpuToRowThreadState event.cpu
        (some number)
  grows : Extends states.rows middle.rows

section Parts

variable {middle : ThreadStates} {event : SwitchEvent}

variable {gone : Option UInt32} {number : Nat}

theorem LetsRun.abandoned (letsRun : LetsRun gone states middle event)
    (bySwitch : states.abandonedBySwitch event = some number) :
    ∃ row : ThreadStateRow, gone = some row.itid ∧
      states.cpuToRowThreadState event.cpu = some number ∧
      middle.rows[number]? = some row ∧ row.dur = invalidTime := by
  cases isGone : gone with
  | none =>
    rw [letsRun.keeps isGone] at bySwitch
    cases bySwitch
  | some thread =>
    rcases letsRun.leaves thread isGone with
      ⟨same, row, isSame, onCpu, found, rfl, isOpen⟩
    rw [isSame, some.injEq] at bySwitch
    subst bySwitch
    exact ⟨row, rfl, onCpu, found, isOpen⟩

theorem abandonedRow_eq_some (isAbandoned : states.abandonedRow event = some number) :
    states.cpuToRowThreadState event.cpu = some number ∧ ∃ row,
      states.rows[number]? = some row ∧ row.itid ≠ event.prevPid ∧ row.dur = invalidTime ∧
        abandonedThread states event = some row.itid := by
  have isRow := isAbandoned
  unfold ThreadStates.abandonedRow at isAbandoned
  cases onCpu : states.cpuToRowThreadState event.cpu with
  | none => simp [onCpu] at isAbandoned
  | some last =>
    simp only [onCpu] at isAbandoned
    cases found : states.rows[last]? with
    | none => simp [found] at isAbandoned
    | some row =>
      simp only [found] at isAbandoned
      split at isAbandoned
      · next open_ =>
          cases isAbandoned
          refine ⟨rfl, row, found, open_.1, ?_, ?_⟩
          · simpa [ThreadStates.endRow, found] using open_.2
          · simp [abandonedThread, isRow, found]
      · cases isAbandoned

theorem letsRun_of_switchNext (known :
    event.nextPid ≠ 0 → ∃ timeline, Represents states event.nextPid timeline)
    (switched : states.switchNext event = some middle) :
    ∃ gone, LetsRun gone states middle event := by
  by_cases idle : event.nextPid = 0
  · have same := switchNext_idle idle switched
    subst same
    exact ⟨none,
      { idle := fun _ => rfl
        notPrev := by simp
        leaves := by simp
        keeps := fun _ => by simp [ThreadStates.abandonedBySwitch, idle]
        others := fun _ _ _ _ represents => represents
        abandons := by simp
        runs := fun notIdle => absurd idle notIdle
        grows := Extends.refl _ }⟩
  · rcases switchNext_eq_some idle switched with ⟨number, begun, isBegun, rfl⟩
    rcases known idle with ⟨timeline, represents⟩
    rcases represents.beginNext isBegun with ⟨_, frames, _⟩
    have bySwitch : states.abandonedBySwitch event = begun.abandonedRow event := by
      simp [ThreadStates.abandonedBySwitch, idle, isBegun]
    refine ⟨abandonedThread begun event,
      { idle := fun isIdle => absurd isIdle idle
        notPrev := ?_
        leaves := ?_
        keeps := ?_
        others := ?_
        abandons := ?_
        runs := ?_
        grows := ?_ }⟩
    · intro isPrev
      cases isRow : begun.abandonedRow event with
      | none => simp [abandonedThread, isRow] at isPrev
      | some last =>
        rcases abandonedRow_eq_some isRow with
          ⟨_, row, _, notPrev, _, isThread⟩
        rw [isThread, some.injEq] at isPrev
        exact notPrev isPrev
    · intro thread isGone
      cases isRow : begun.abandonedRow event with
      | none => simp [abandonedThread, isRow] at isGone
      | some last =>
        rcases abandonedRow_eq_some isRow with
          ⟨onCpu, row, found, _, isOpen, isThread⟩
        rw [isThread, some.injEq] at isGone
        rw [frames.onCpu] at onCpu
        exact ⟨last, row, bySwitch.trans isRow, onCpu,
          by rw [rows_replaceOnCpu, found], isGone, isOpen⟩
    · intro noThread
      rw [bySwitch]
      cases isRow : begun.abandonedRow event with
      | none => rfl
      | some last =>
        rcases abandonedRow_eq_some isRow with
          ⟨_, row, _, _, _, isThread⟩
        rw [isThread] at noThread
        cases noThread
    · intro other otherTimeline isOther stays ofOther
      have replaced := (frames.others other otherTimeline isOther ofOther).replaceOnCpu event number
      simpa [stays] using replaced
    · intro other otherTimeline isOther isGone ofOther
      have replaced := (frames.others other otherTimeline isOther ofOther).replaceOnCpu event number
      simpa [isGone] using replaced
    · intro _ ofTimeline ofNext
      rcases ofNext.beginNext isBegun with ⟨begins, _, fresh⟩
      have replaced := begins.replaceOnCpu event number
      refine ⟨states.rows.length, number, le_refl _, fresh, ?_, ?_, ?_⟩
      · rw [rows_replaceOnCpu, begins.rows]
      · intro stays
        simpa [stays] using replaced
      · rw [onCpu_replaceOnCpu, frames.onCpu]
    · rw [rows_replaceOnCpu]
      exact frames.grows

/-- The previous thread can be stopped in the row it is in. -/
def Stoppable (states : ThreadStates) (event : SwitchEvent) : Prop :=
  ∀ row ∈ states.currentRow event.prevPid,
    states.pendingWakeup event.prevPid = none ∧ event.ts - row.ts ≠ invalidTime

theorem Stoppable.canStop (stoppable : Stoppable states event) {timeline : ThreadTimeline}
    (represents : Represents states event.prevPid timeline) :
    (timeline.current ≠ none → timeline.pending = none) ∧ ∀ current ∈ timeline.current,
      event.ts - current.row.ts ≠ invalidTime := by
  have ofRow : ∀ current ∈ timeline.current, timeline.pending = none ∧
    event.ts - current.row.ts ≠ invalidTime := by
    intro current isCurrent
    rw [← represents.pendingWakeup]
    apply stoppable
    rw [represents.currentRow, mem_def.1 isCurrent]
    rfl
  refine ⟨?_, fun current isCurrent => (ofRow current isCurrent).2⟩
  intro known
  rcases ne_none_iff_exists'.1 known with ⟨current, isCurrent⟩
  exact (ofRow current isCurrent).1

theorem stoppable_of_run {timeline : ThreadTimeline} {woken : Nat}
    (represents : Represents states event.prevPid (timeline.run event woken number)) :
    Stoppable states event := by
  intro row isRow
  rw [represents.pendingWakeup, ThreadTimeline.pending_run]
  rw [represents.currentRow] at isRow
  simp only [ThreadTimeline.run, ThreadTimeline.enter, map_some, mem_some_iff] at isRow
  subst isRow
  refine ⟨rfl, ?_⟩
  simp [openRow, invalidTime, invalidUint64]

theorem LetsRun.prev (letsRun : LetsRun gone states middle event)
    (otherThread : event.prevPid ≠ event.nextPid) {timeline : ThreadTimeline}
    (represents : Represents states event.prevPid timeline) :
    (Stoppable middle event ↔ Stoppable states event) ∧
      middle.isChangeCpu event = states.isChangeCpu event := by
  have after := letsRun.others _ timeline otherThread letsRun.notPrev represents
  refine ⟨?_, ?_⟩
  · unfold Stoppable
    rw [after.currentRow, after.pendingWakeup, represents.currentRow, represents.pendingWakeup]
  · rw [after.isChangeCpu, represents.isChangeCpu]

theorem SettledSwitch.stoppable {wakes : ThreadStateRow → UInt64 → Prop}
    (settled : SettledSwitch wakes states event)
    (letsRun : LetsRun gone states middle event) (notIdle : event.prevPid ≠ 0)
    (represents : Represents states event.prevPid timeline)
    (staysOnCpu : middle.isChangeCpu event = false) : Stoppable middle event := by
  by_cases sameThread : event.prevPid = event.nextPid
  · have notGone := letsRun.notPrev
    rw [sameThread] at represents notIdle notGone
    rcases letsRun.runs notIdle timeline represents with
      ⟨woken, number, _, _, _, runs, _⟩
    have running := runs notGone
    rw [← sameThread] at running
    exact stoppable_of_run running
  · have same := letsRun.prev sameThread represents
    refine same.1.2 ?_
    exact settled.prev notIdle sameThread (same.2.symm.trans staysOnCpu)

end Parts

theorem states_insertSwitchEvent {filter next : CpuFilter} {event : SwitchEvent}
    (stepped : filter.step (.insertSwitchEvent event) = some next) :
    ∃ row, filter.states.insertSwitch event = some (next.states, row) := by
  rcases map_eq_some_iff.1 stepped with ⟨⟨states, row⟩, switched, rfl⟩
  exact ⟨row, switched⟩

end SysAnalyzer.Filter
