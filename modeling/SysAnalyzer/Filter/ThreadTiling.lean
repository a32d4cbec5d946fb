import SysAnalyzer.Filter.ThreadTimeline

/-!
# Thread state timelines of consistent schedules

On a schedule in which each CPU stops the thread it runs, the rows of a thread
should tile: each row ends where the next one begins, only the last is open,
and it is the one that the filter remembers.  The rows do so exactly along the
runs whose switches are settled: a wakeup that was recorded before the thread
was first seen, or that is pending when a thread is stopped in a row other than
a running one, breaks the timeline.
-/

namespace SysAnalyzer.Filter

open Foundation List Option Function
open Base

/-- A row ends where the next one begins, and is not open. -/
def Meets (earlier later : ThreadStateRow × Nat) : Prop :=
  earlier.1.dur ≠ invalidTime ∧ earlier.1.ts.toNat + earlier.1.dur.toNat = later.1.ts.toNat

/-- The rows of a thread tile; an open one is last and is remembered. -/
structure TilesThread (states : ThreadStates) (itid : UInt32) : Prop where
  meets : (threadRowsOf itid states.rows).IsChain Meets
  remembered : ∀ entry ∈ threadRowsOf itid states.rows, entry.1.dur = invalidTime →
    states.rowOfInternalTidInStateTable itid = some entry.2

def ClosesAt (row : ThreadStateRow) (ts : UInt64) : Prop := row.ts ≤ ts ∧ ts - row.ts ≠ invalidTime

structure ThreadTimeline.Tiled (timeline : ThreadTimeline) : Prop where
  meets : timeline.rows.IsChain Meets
  known : timeline.current = none → timeline.past = []

theorem closeRow_meets_iff {row : ThreadStateRow} {ts : UInt64} {number : Nat}
    {later : ThreadStateRow × Nat} (begins : later.1.ts = ts) :
    Meets (closeRow ts row, number) later ↔ ClosesAt row ts := by
  unfold Meets ClosesAt closeRow
  dsimp only
  rw [begins, and_comm, UInt64.le_iff_toNat_le, UInt64.toNat_sub]
  have := row.ts.toNat_lt
  have := ts.toNat_lt
  constructor
  · rintro ⟨ends, notOpen⟩
    exact ⟨by omega, notOpen⟩
  · rintro ⟨ordered, notOpen⟩
    exact ⟨by omega, notOpen⟩

theorem closed_of_isChain {earlier : List (ThreadStateRow × Nat)} {last : ThreadStateRow × Nat}
    (chain : (earlier ++ [last]).IsChain Meets) : ∀ entry ∈ earlier, entry.1.dur ≠ invalidTime := by
  induction earlier with
  | nil => simp
  | cons first rest induction =>
    intro entry member
    rcases mem_cons.1 member with rfl | member
    · cases rest with
      | nil => exact (isChain_cons_cons.1 chain).1.1
      | cons second tail => exact (isChain_cons_cons.1 chain).1.1
    · exact induction (List.IsChain.tail chain) entry member

theorem isChain_enter_iff {timeline : ThreadTimeline} {ts : UInt64} {next : CurrentRow}
    (known : timeline.current = none → timeline.past = []) (begins : next.row.ts = ts) :
    (timeline.enter ts next).rows.IsChain Meets ↔ timeline.rows.IsChain Meets ∧
      ∀ current ∈ timeline.current, ClosesAt current.row ts := by
  cases isCurrent : timeline.current with
  | none => simp [ThreadTimeline.rows, ThreadTimeline.enter, isCurrent, known isCurrent]
  | some current =>
    have sameBegin : (timeline.past ++ [(closeRow ts current.row, current.number)]).IsChain Meets ↔
      (timeline.past ++ [(current.row, current.number)]).IsChain Meets := by
      simp only [isChain_append, isChain_singleton, head?_cons, mem_some_iff, forall_eq']
      exact Iff.rfl
    have closes : Meets (closeRow ts current.row, current.number) (next.row, next.number) ↔
      ClosesAt current.row ts :=
      closeRow_meets_iff begins
    simp [ThreadTimeline.rows, ThreadTimeline.enter, isCurrent, sameBegin, closes]

section

variable {states : ThreadStates} {itid : UInt32} {timeline : ThreadTimeline}
  (represents : Represents states itid timeline)
include represents

theorem TilesThread.of_tiled (tiled : timeline.Tiled) : TilesThread states itid where
  meets := by
    rw [represents.rows]
    exact tiled.meets
  remembered := by
    intro entry member isOpen
    have chain := tiled.meets
    rw [represents.rows] at member
    cases isCurrent : timeline.current with
    | none => simp [ThreadTimeline.rows, isCurrent, tiled.known isCurrent] at member
    | some current =>
      simp only [ThreadTimeline.rows, isCurrent, map_some, toList_some] at member chain
      rcases mem_append.1 member with earlier | last
      · exact absurd isOpen (closed_of_isChain chain entry earlier)
      · rw [mem_singleton] at last
        rw [represents.rowOf, isCurrent, last]
        rfl

theorem current_of_open (tiled : timeline.Tiled) {row : ThreadStateRow} {number : Nat}
    (found : states.rows[number]? = some row) (isOwn : row.itid = itid)
    (isOpen : row.dur = invalidTime) :
    ∃ current, timeline.current = some current ∧ current.number = number ∧ current.row = row := by
  have member : (row, number) ∈ threadRowsOf itid states.rows :=
    mem_keptRows.2 ⟨found, decide_eq_true isOwn⟩
  have remembered := (TilesThread.of_tiled represents tiled).remembered _ member isOpen
  rw [represents.rowOf, map_eq_some_iff] at remembered
  rcases remembered with ⟨current, isCurrent, rfl⟩
  have atCurrent := (represents.getElem?_current isCurrent).1
  rw [found, some.injEq] at atCurrent
  exact ⟨current, isCurrent, rfl, atCurrent.symm⟩

end

/-- The time of the last event and the thread last let run on each CPU. -/
structure Schedule where
  now : UInt64
  running : StdMap UInt32 UInt32

namespace Schedule

def initial : Schedule := ⟨0, fun _ => none⟩

/--
A consistent schedule: time does not run backwards, a CPU stops the thread it
runs, and no thread is let run on one CPU while it runs on another.
-/
def Allows (schedule : Schedule) : CpuCall → Prop
  | .insertSwitchEvent event =>
    schedule.now ≤ event.ts ∧ (∀ thread ∈ schedule.running event.cpu, event.prevPid = thread) ∧
      (event.nextPid ≠ 0 → ∀ cpu, cpu ≠ event.cpu → schedule.running cpu ≠ some event.nextPid)
  | .insertWakeupEvent ts _ _ => schedule.now ≤ ts
  | _ => False

def follow (schedule : Schedule) : CpuCall → Schedule
  | .insertSwitchEvent event =>
    ⟨event.ts, Function.update schedule.running event.cpu (some event.nextPid)⟩
  | .insertWakeupEvent ts _ _ => { schedule with now := ts }
  | _ => schedule

end Schedule

/-- The condition on one operation under which timelines keep tiling. -/
def TilingStep (filter : CpuFilter) : CpuCall → Prop
  | .insertSwitchEvent event => SettledSwitch ClosesAt filter.states event
  | _ => True

/-- The state holds a timeline for every thread, which tiles up to now. -/
def TimelinesTile (states : ThreadStates) (now : UInt64) : Prop :=
  ∀ itid, itid ≠ 0 → ∃ timeline, Represents states itid timeline ∧ timeline.Tiled ∧
    (∀ current ∈ timeline.current, current.row.ts ≤ now) ∧
    (∀ wakeup ∈ timeline.wakeup, wakeup ≤ now)

def SettledOnCpu (rows : List ThreadStateRow) (running : Option UInt32)
    (cpu : UInt32) (number : Nat) : Prop :=
  ∃ row : ThreadStateRow, rows[number]? = some row ∧ row.cpu = cpu ∧ row.itid ≠ 0 ∧
    (row.dur ≠ invalidTime ∨ running = some row.itid)

/-- The timelines tile and the maps agree with the schedule. -/
structure Consistent (schedule : Schedule) (states : ThreadStates) :
    Prop where
  timelines : TimelinesTile states schedule.now
  onCpu : ∀ cpu number, states.cpuToRowThreadState cpu = some number →
    SettledOnCpu states.rows (schedule.running cpu) cpu number

section Moves

variable {timeline : ThreadTimeline} {event : SwitchEvent}

theorem closesAt_iff_of_le {row : ThreadStateRow} {ts : UInt64} (begun : row.ts ≤ ts) :
    ClosesAt row ts ↔ ts - row.ts ≠ invalidTime :=
  ⟨fun closes => closes.2, fun notOpen => ⟨begun, notOpen⟩⟩

theorem isChain_run_iff (known : timeline.current = none → timeline.past = [])
    (begun : ∀ current ∈ timeline.current, current.row.ts ≤ event.ts)
    (recorded : ∀ wakeup ∈ timeline.wakeup, wakeup ≤ event.ts) (woken number : Nat) :
    (timeline.run event woken number).rows.IsChain Meets ↔
      timeline.rows.IsChain Meets ∧ (match timeline.pending with
        | some wakeup =>
          (∀ current ∈ timeline.current, ClosesAt current.row wakeup) ∧
            event.ts - wakeup ≠ invalidTime
        | none =>
          ∀ current ∈ timeline.current, event.ts - current.row.ts ≠ invalidTime) := by
  unfold ThreadTimeline.run ThreadTimeline.wake
  cases waits : timeline.pending with
  | none =>
    have entered : (timeline.forgetWakeup.enter event.ts
      ⟨openRow event.ts event.cpu event.nextPid taskRunning, number,
        taskRunning⟩).rows.IsChain Meets ↔
        timeline.rows.IsChain Meets ∧
          ∀ current ∈ timeline.current, ClosesAt current.row event.ts :=
      isChain_enter_iff known rfl
    refine entered.trans (and_congr Iff.rfl (forall₂_congr ?_))
    intro current isCurrent
    exact closesAt_iff_of_le (begun current isCurrent)
  | some wakeup =>
    have atWakeup : wakeup ≤ event.ts := by
      apply recorded
      unfold ThreadTimeline.pending at waits
      split at waits
      · cases waits
      · exact waits
    have woke : (timeline.enter wakeup (ThreadTimeline.wokenRow event.nextPid wakeup
      woken)).rows.IsChain Meets ↔
      timeline.rows.IsChain Meets ∧ ∀ current ∈ timeline.current, ClosesAt current.row wakeup :=
      isChain_enter_iff known rfl
    have entered : ((timeline.enter wakeup (ThreadTimeline.wokenRow event.nextPid wakeup
      woken)).forgetWakeup.enter event.ts
      ⟨openRow event.ts event.cpu event.nextPid taskRunning, number,
        taskRunning⟩).rows.IsChain Meets ↔
        (timeline.enter wakeup (ThreadTimeline.wokenRow event.nextPid wakeup
          woken)).rows.IsChain Meets ∧
          ∀ current ∈ some (ThreadTimeline.wokenRow event.nextPid wakeup woken),
            ClosesAt current.row event.ts :=
      isChain_enter_iff (by simp [ThreadTimeline.forgetWakeup, ThreadTimeline.enter]) rfl
    have closes : (∀ current ∈ some (ThreadTimeline.wokenRow event.nextPid wakeup woken),
      ClosesAt current.row event.ts) ↔
      event.ts - wakeup ≠ invalidTime := by
      simp only [mem_some_iff, forall_eq']
      exact closesAt_iff_of_le atWakeup
    rw [woke, closes, and_assoc] at entered
    exact entered

theorem isChain_stop_iff (known : timeline.current = none → timeline.past = [])
    (begun : ∀ current ∈ timeline.current, current.row.ts ≤ event.ts) (number : Nat) :
    (timeline.stop event number).rows.IsChain Meets ↔
      timeline.rows.IsChain Meets ∧ ∀ current ∈ timeline.current,
        event.ts - current.row.ts ≠ invalidTime := by
  have entered : (timeline.enter event.ts (leftRow event number)).rows.IsChain Meets ↔
    timeline.rows.IsChain Meets ∧ ∀ current ∈ timeline.current, ClosesAt current.row event.ts :=
    isChain_enter_iff known rfl
  have sameRows : (timeline.stop event number).rows =
    (timeline.enter event.ts (leftRow event number)).rows := by
    unfold ThreadTimeline.stop
    cases timeline.current <;> rfl
  rw [sameRows, entered]
  refine and_congr Iff.rfl (forall₂_congr ?_)
  intro current isCurrent
  exact closesAt_iff_of_le (begun current isCurrent)

end Moves

/-! ## The two parts of a switch -/

section Parts

variable {schedule : Schedule} {states middle next : ThreadStates}
  {event : SwitchEvent} {row : Option Nat}

theorem Consistent.letsRun (consistent : Consistent schedule states)
    (stops : ∀ thread ∈ schedule.running event.cpu, event.prevPid = thread)
    (switched : states.switchNext event = some middle) : LetsRun none states middle event := by
  rcases letsRun_of_switchNext (fun notIdle => by
    rcases consistent.timelines event.nextPid notIdle with
      ⟨timeline, represents, _⟩
    exact ⟨timeline, represents⟩)
    switched with ⟨gone, letsRun⟩
  cases gone with
  | none => exact letsRun
  | some thread =>
    rcases letsRun.leaves thread rfl with
      ⟨number, later, _, onCpu, atLater, sameThread, stillOpen⟩
    rcases consistent.onCpu event.cpu number onCpu with
      ⟨row, found, _, _, settled⟩
    rcases letsRun.grows number row found with ⟨same, atSame, change⟩
    rw [atLater, some.injEq] at atSame
    subst atSame
    rcases settled with closed | isRunning
    · rcases change with rfl | ⟨isOpen, _⟩
      · exact absurd stillOpen closed
      · exact absurd isOpen closed
    · have isPrev : thread = event.prevPid := by
        rw [stops row.itid isRunning, ← sameThread]
        rcases change with rfl | ⟨_, ts, rfl⟩ <;> rfl
      exact absurd (by rw [isPrev]) letsRun.notPrev

theorem stoppable_of_tiles {timeline : ThreadTimeline}
    (represents : Represents middle event.prevPid timeline) (tiled : timeline.Tiled)
    (begun : ∀ current ∈ timeline.current, current.row.ts ≤ event.ts) (notIdle : event.prevPid ≠ 0)
    (staysOnCpu : middle.isChangeCpu event = false)
    (switched : middle.switchPrev event = some (next, row))
    (tiles : TilesThread next event.prevPid) : Stoppable middle event := by
  intro found isRow
  rw [represents.currentRow] at isRow
  rcases map_eq_some_iff.1 isRow with ⟨current, isCurrent, rfl⟩
  have known : timeline.current ≠ none := by simp [isCurrent]
  rw [represents.pendingWakeup]
  cases waits : timeline.pending with
  | some wakeup =>
    rcases represents.switchPrev_stale notIdle staysOnCpu known waits
      switched with ⟨earlier, woken, left, rows, _, _⟩
    have chain := tiles.meets
    rw [rows] at chain
    have closed :=
      closed_of_isChain chain (openRow wakeup invalidCpu event.prevPid taskRunnable, woken)
        (by simp)
    exact absurd rfl closed
  | none =>
    rcases represents.switchPrev notIdle staysOnCpu (fun _ => waits)
      switched with ⟨number, _, stopped, _⟩
    have chain := tiles.meets
    rw [stopped.rows, isChain_stop_iff tiled.known begun] at chain
    exact ⟨rfl, chain.2 current isCurrent⟩

theorem Consistent.settled_of_tiles (consistent : Consistent schedule states)
    (allowed : schedule.Allows (.insertSwitchEvent event))
    (switched : states.insertSwitch event = some (next, row))
    (tiles : ∀ itid, itid ≠ 0 → TilesThread next itid) : SettledSwitch ClosesAt states event := by
  rcases allowed with ⟨ordered, stops, _⟩
  rcases insertSwitch_eq_some switched with ⟨middle, letNext, letPrev⟩
  have letsRun := consistent.letsRun stops letNext
  have prevSettled : event.prevPid ≠ 0 → event.prevPid ≠ event.nextPid →
    states.isChangeCpu event = false → Stoppable states event := by
    intro notIdle otherThread staysOnCpu
    rcases consistent.timelines event.prevPid notIdle with
      ⟨timeline, represents, tiled, begun, _⟩
    have same := letsRun.prev otherThread represents
    refine same.1.1 ?_
    refine
      stoppable_of_tiles (letsRun.others _ _ otherThread (by simp) represents) tiled ?_
        notIdle (same.2.trans staysOnCpu) letPrev (tiles _ notIdle)
    intro current isCurrent
    exact UInt64.le_trans (begun current isCurrent) ordered
  refine ⟨?_, prevSettled⟩
  intro notIdle
  rcases consistent.timelines event.nextPid notIdle with
    ⟨timeline, represents, tiled, begun, recorded⟩
  rcases letsRun.runs notIdle timeline represents with
    ⟨woken, number, _, _, _, runs, _⟩
  have runs := runs (by simp)
  have chain : (timeline.run event woken number).rows.IsChain Meets := by
    have tilesNext := tiles event.nextPid notIdle
    by_cases skipped : event.prevPid = 0 ∨ middle.isChangeCpu event = true
    · rw [switchPrev_skipped skipped letPrev] at tilesNext
      exact runs.rows ▸ tilesNext.meets
    · simp only [not_or, Bool.not_eq_true] at skipped
      rcases skipped with ⟨prevNotIdle, staysOnCpu⟩
      by_cases sameThread : event.prevPid = event.nextPid
      · rw [← sameThread] at runs tilesNext
        have stoppable := (stoppable_of_run runs).canStop runs
        rcases runs.switchPrev prevNotIdle staysOnCpu stoppable.1 letPrev with
          ⟨left, _, stopped, _⟩
        have stoppedChain := tilesNext.meets
        rw [stopped.rows, isChain_stop_iff] at stoppedChain
        · exact stoppedChain.1
        · simp [ThreadTimeline.run, ThreadTimeline.enter]
        · simp [ThreadTimeline.run, ThreadTimeline.enter, openRow]
      · rcases consistent.timelines event.prevPid prevNotIdle with
          ⟨prevTimeline, ofPrev, _⟩
        have same := letsRun.prev sameThread ofPrev
        have stoppable := prevSettled prevNotIdle sameThread (same.2.symm.trans staysOnCpu)
        have after := letsRun.others _ _ sameThread (by simp) ofPrev
        rcases after.switchPrev prevNotIdle staysOnCpu
          (stoppable.canStop ofPrev).1 letPrev with ⟨_, _, _, frames⟩
        have kept := frames.others event.nextPid _ (Ne.symm sameThread) runs
        exact kept.rows ▸ tilesNext.meets
  rw [isChain_run_iff tiled.known (fun current isCurrent =>
    UInt64.le_trans (begun current isCurrent) ordered)
    (fun wakeup waits => UInt64.le_trans (recorded wakeup waits) ordered)] at chain
  rw [represents.pendingWakeup, represents.currentRow]
  cases waits : timeline.pending with
  | none => simpa [waits] using chain.2
  | some wakeup => simpa [waits] using chain.2

theorem TimelinesTile.run {now : UInt64}
    (tile : TimelinesTile states now) (ordered : now ≤ event.ts)
    (letsRun : LetsRun none states middle event) (settled : SettledSwitch ClosesAt states event) :
    TimelinesTile middle event.ts := by
  intro itid notIdle
  rcases tile itid notIdle with
    ⟨timeline, represents, tiled, begun, recorded⟩
  have begunNow : ∀ current ∈ timeline.current, current.row.ts ≤ event.ts :=
    fun current isCurrent => UInt64.le_trans (begun current isCurrent) ordered
  have recordedNow : ∀ wakeup ∈ timeline.wakeup, wakeup ≤ event.ts :=
    fun wakeup waits => UInt64.le_trans (recorded wakeup waits) ordered
  by_cases isNext : itid = event.nextPid
  · subst isNext
    rcases letsRun.runs notIdle timeline represents with
      ⟨woken, number, _, _, _, runs, _⟩
    have runs := runs (by simp)
    refine ⟨_, runs, ⟨?_, ?_⟩, ?_, ?_⟩
    · rw [isChain_run_iff tiled.known begunNow recordedNow]
      refine ⟨tiled.meets, ?_⟩
      have ofNext := settled.next notIdle
      rw [represents.pendingWakeup, represents.currentRow] at ofNext
      cases waits : timeline.pending with
      | none => simpa [waits] using ofNext
      | some wakeup => simpa [waits] using ofNext
    · simp [ThreadTimeline.run, ThreadTimeline.enter]
    · simp [ThreadTimeline.run, ThreadTimeline.enter, openRow]
    · intro wakeup waits
      unfold ThreadTimeline.run ThreadTimeline.wake at waits
      cases pending : timeline.pending <;>
        simp [pending, ThreadTimeline.enter, ThreadTimeline.forgetWakeup]
          at waits
  · exact
      ⟨timeline, letsRun.others itid timeline isNext (by simp) represents, tiled,
        begunNow, recordedNow⟩

theorem TimelinesTile.stop (tile : TimelinesTile middle event.ts) (notIdle : event.prevPid ≠ 0)
    (staysOnCpu : middle.isChangeCpu event = false) (stoppable : Stoppable middle event)
    (switched : middle.switchPrev event = some (next, row)) : TimelinesTile next event.ts := by
  rcases tile event.prevPid notIdle with
    ⟨prevTimeline, ofPrev, prevTiled, prevBegun, prevRecorded⟩
  have canStop := stoppable.canStop ofPrev
  rcases ofPrev.switchPrev notIdle staysOnCpu canStop.1 switched with
    ⟨number, _, stopped, frames⟩
  intro itid itidNotIdle
  by_cases isPrev : itid = event.prevPid
  · subst isPrev
    refine ⟨_, stopped, ⟨?_, ?_⟩, ?_, ?_⟩
    · rw [isChain_stop_iff prevTiled.known prevBegun]
      exact ⟨prevTiled.meets, canStop.2⟩
    · simp [ThreadTimeline.stop, ThreadTimeline.enter]
    · simp [ThreadTimeline.stop, ThreadTimeline.enter, leftRow, openRow]
    · intro wakeup waits
      apply prevRecorded
      unfold ThreadTimeline.stop at waits
      cases isCurrent : prevTimeline.current <;>
        simp_all [ThreadTimeline.enter, ThreadTimeline.forgetWakeup]
  · rcases tile itid itidNotIdle with
      ⟨timeline, represents, tiled, begun, recorded⟩
    exact ⟨timeline, frames.others itid timeline isPrev represents, tiled, begun, recorded⟩

theorem SettledOnCpu.grows {rows extended : List ThreadStateRow} {running : Option UInt32}
    {cpu : UInt32} {number : Nat} (settled : SettledOnCpu rows running cpu number)
    (grows : Extends rows extended) : SettledOnCpu extended running cpu number := by
  rcases settled with ⟨row, found, sameCpu, notIdle, settled⟩
  rcases grows number row found with ⟨later, atLater, change⟩
  refine ⟨later, atLater, ?_⟩
  rcases change with rfl | ⟨isOpen, ts, rfl⟩
  · exact ⟨sameCpu, notIdle, settled⟩
  · rcases settled with closed | isRunning
    · exact absurd isOpen closed
    · exact ⟨sameCpu, notIdle, .inr isRunning⟩

theorem onCpu_switchPrev {now : UInt64} (tile : TimelinesTile middle now)
    (stoppable : event.prevPid ≠ 0 → middle.isChangeCpu event = false → Stoppable middle event)
    (switched : middle.switchPrev event = some (next, row)) :
    next.cpuToRowThreadState = middle.cpuToRowThreadState ∧ Extends middle.rows next.rows := by
  by_cases skipped : event.prevPid = 0 ∨ middle.isChangeCpu event = true
  · rw [switchPrev_skipped skipped switched]
    exact ⟨rfl, Extends.refl _⟩
  · simp only [not_or, Bool.not_eq_true] at skipped
    rcases tile event.prevPid skipped.1 with ⟨timeline, represents, _⟩
    have canStop := (stoppable skipped.1 skipped.2).canStop represents
    rcases represents.switchPrev skipped.1 skipped.2 canStop.1 switched with
      ⟨_, _, _, frames⟩
    exact ⟨frames.onCpu, frames.grows⟩

theorem settledOnCpu_idle {now : UInt64} {number : Nat} {running : Option UInt32}
    (tile : TimelinesTile states now) (stops : ∀ thread ∈ running, event.prevPid = thread)
    (settled : SettledOnCpu states.rows running event.cpu number) (stoppable :
      event.prevPid ≠ 0 → states.isChangeCpu event = false →
        Stoppable states event) (grows : Extends states.rows next.rows)
    (switched : states.switchPrev event = some (next, row)) :
    SettledOnCpu next.rows (some 0) event.cpu number := by
  rcases settled with ⟨found, atRow, sameCpu, notIdle, settled⟩
  by_cases isOpen : found.dur = invalidTime
  · have isRunning : running = some found.itid := by
      rcases settled with closed | isRunning
      · exact absurd isOpen closed
      · exact isRunning
    have isPrev := stops found.itid isRunning
    rw [← isPrev] at notIdle
    rcases tile event.prevPid notIdle with ⟨timeline, represents, tiled, _⟩
    rcases current_of_open represents tiled atRow isPrev.symm isOpen with
      ⟨current, isCurrent, rfl, rfl⟩
    have staysOnCpu : states.isChangeCpu event = false := by
      rw [represents.isChangeCpu, isCurrent]
      simp [sameCpu]
    have canStop := (stoppable notIdle staysOnCpu).canStop represents
    rcases represents.switchPrev notIdle staysOnCpu canStop.1 switched with
      ⟨left, _, stopped, _⟩
    have member : (closeRow event.ts current.row, current.number) ∈
      threadRowsOf event.prevPid next.rows := by
      rw [stopped.rows]
      simp [ThreadTimeline.stop, ThreadTimeline.enter, ThreadTimeline.rows,
        isCurrent, ThreadTimeline.forgetWakeup]
    refine ⟨_, (mem_keptRows.1 member).1, sameCpu, ?_, ?_⟩
    · exact isPrev ▸ notIdle
    · exact .inl (canStop.2 current isCurrent)
  · have closed : SettledOnCpu states.rows (some 0) event.cpu number :=
      ⟨found, atRow, sameCpu, notIdle, .inl isOpen⟩
    exact closed.grows grows

theorem Consistent.switch (consistent : Consistent schedule states)
    (allowed : schedule.Allows (.insertSwitchEvent event))
    (settled : SettledSwitch ClosesAt states event)
    (switched : states.insertSwitch event = some (next, row)) :
    Consistent (schedule.follow (.insertSwitchEvent event)) next := by
  rcases allowed with ⟨ordered, stops, _⟩
  rcases insertSwitch_eq_some switched with ⟨middle, letNext, letPrev⟩
  have letsRun := consistent.letsRun stops letNext
  have middleTile := consistent.timelines.run ordered letsRun settled
  have stoppable : event.prevPid ≠ 0 → middle.isChangeCpu event = false →
    Stoppable middle event := by
    intro notIdle
    rcases consistent.timelines event.prevPid notIdle with
      ⟨timeline, represents, _⟩
    exact settled.stoppable letsRun notIdle represents
  rcases onCpu_switchPrev middleTile stoppable letPrev with ⟨onCpu, grows⟩
  refine ⟨?_, ?_⟩
  · by_cases skipped : event.prevPid = 0 ∨ middle.isChangeCpu event = true
    · rw [switchPrev_skipped skipped letPrev]
      exact middleTile
    · simp only [not_or, Bool.not_eq_true] at skipped
      exact middleTile.stop skipped.1 skipped.2 (stoppable skipped.1 skipped.2) letPrev
  · intro cpu number isOnCpu
    rw [onCpu] at isOnCpu
    simp only [Schedule.follow]
    by_cases idle : event.nextPid = 0
    · have same := letsRun.idle idle
      subst same
      have before := consistent.onCpu cpu number isOnCpu
      by_cases here : cpu = event.cpu
      · subst here
        rw [update_self, idle]
        exact settledOnCpu_idle consistent.timelines stops before stoppable grows letPrev
      · rw [update_of_ne here]
        exact before.grows grows
    · rcases consistent.timelines event.nextPid idle with
        ⟨timeline, represents, _⟩
      rcases letsRun.runs idle timeline represents with
        ⟨woken, begun, _, _, _, runs, newOnCpu⟩
      have runs := runs (by simp)
      rw [newOnCpu] at isOnCpu
      by_cases here : cpu = event.cpu
      · subst here
        rw [update_self, some.injEq] at isOnCpu
        subst isOnCpu
        rw [update_self]
        have found := (runs.getElem?_current rfl).1
        have inMiddle : SettledOnCpu middle.rows (some event.nextPid) event.cpu begun :=
          ⟨_, found, rfl, idle, .inr rfl⟩
        exact inMiddle.grows grows
      · rw [update_of_ne here] at isOnCpu ⊢
        exact (consistent.onCpu cpu number isOnCpu).grows (letsRun.grows.trans grows)

theorem Consistent.wakeup {ts : UInt64} {internalTid : UInt32} {isWaking : Bool}
    (consistent : Consistent schedule states) (ordered : schedule.now ≤ ts) :
    Consistent { schedule with now := ts } (states.insertWakeupEvent ts internalTid isWaking) := by
  unfold ThreadStates.insertWakeupEvent
  have waited : TimelinesTile states ts := by
    intro itid notIdle
    rcases consistent.timelines itid notIdle with
      ⟨timeline, represents, tiled, begun, recorded⟩
    exact ⟨timeline, represents, tiled, fun current isCurrent =>
      UInt64.le_trans (begun current isCurrent) ordered,
      fun wakeup waits => UInt64.le_trans (recorded wakeup waits) ordered⟩
  split
  · refine ⟨?_, consistent.onCpu⟩
    intro itid notIdle
    rcases waited itid notIdle with
      ⟨timeline, represents, tiled, begun, recorded⟩
    by_cases here : itid = internalTid
    · subst here
      refine ⟨{ timeline with wakeup := some ts },
        ⟨represents.rows, represents.current, by simp, represents.isOpen⟩,
        ⟨tiled.meets, tiled.known⟩, begun, ?_⟩
      simp
    · exact ⟨timeline, ⟨represents.rows, represents.current,
        by simpa [here] using represents.wakeup, represents.isOpen⟩, tiled, begun, recorded⟩
  · exact ⟨waited, consistent.onCpu⟩

theorem consistent_initial : Consistent .initial .initial where
  timelines := by
    intro itid _
    refine ⟨⟨[], none, none⟩, ⟨rfl, rfl, rfl, by simp⟩, ⟨?_, ?_⟩, ?_, ?_⟩ <;>
      simp [ThreadTimeline.rows]
  onCpu := by
    intro cpu number isOnCpu
    simp [ThreadStates.initial] at isOnCpu

end Parts

/--
Along a run of switches and wakeups over a consistent schedule, the rows of
every thread tile in every state reached exactly when every switch is settled.
-/
theorem thread_timelines_tile_iff
    (enabled : Bool) (calls : List CpuCall) (filter : CpuFilter) (consistent :
      EachStep Schedule.follow Schedule.Allows .initial calls) (reached :
      runPartial CpuFilter.step (.initial enabled) calls = some filter) :
    (∀ past between, past <+: calls →
      runPartial CpuFilter.step (.initial enabled) past = some between →
        ∀ itid, itid ≠ 0 → TilesThread between.states itid) ↔
      EachPartial CpuFilter.step TilingStep (.initial enabled) calls := by
  refine eachReached_iff (fun _ filter => ∀ itid, itid ≠ 0 → TilesThread filter.states itid)
    (fun schedule filter => Consistent schedule filter.states)
    ?_ ?_ ?_ consistent_initial consistent reached
  · intro schedule filter state itid notIdle
    rcases state.timelines itid notIdle with ⟨timeline, represents, tiled, _⟩
    exact TilesThread.of_tiled represents tiled
  · intro schedule filter call next state allowed stepped tiles
    cases call with
    | insertSwitchEvent event =>
      rcases states_insertSwitchEvent stepped with ⟨row, switched⟩
      exact state.settled_of_tiles allowed switched tiles
    | _ => trivial
  · intro schedule filter call next state allowed settled stepped
    cases call with
    | insertSwitchEvent event =>
      rcases states_insertSwitchEvent stepped with ⟨row, switched⟩
      exact state.switch allowed settled switched
    | insertWakeupEvent ts internalTid isWaking =>
      cases stepped
      exact state.wakeup allowed
    | _ => exact absurd allowed id

def wokenInTime : List CpuCall :=
  [.insertSwitchEvent ⟨1, 0, 0, 0, 7, 120⟩, .insertWakeupEvent 2 9 false,
    .insertSwitchEvent ⟨5, 0, 7, 1, 9, 120⟩]

theorem thread_timelines_tile_wokenInTime :
    ∃ filter, EachStep Schedule.follow Schedule.Allows .initial wokenInTime ∧
      runPartial CpuFilter.step (.initial false) wokenInTime = some filter ∧
      ∀ itid, itid ≠ 0 → TilesThread filter.states itid := by
  have consistent : EachStep Schedule.follow Schedule.Allows .initial wokenInTime := by
    simp only [wokenInTime, EachStep, Schedule.Allows, Schedule.follow, Schedule.initial]
    refine ⟨⟨by decide, by simp, by simp⟩, by decide,
      ⟨by decide, by simp, ?_⟩, trivial⟩
    intro _ cpu other
    simp [other]
  have settled : EachPartial CpuFilter.step TilingStep (.initial false) wokenInTime := by
    refine ⟨⟨fun _ => ?_, fun idle => absurd rfl idle⟩, ?_⟩
    · rintro row ⟨⟩
    rintro first ⟨⟩
    refine ⟨trivial, ?_⟩
    rintro second ⟨⟩
    refine ⟨⟨fun _ => ⟨?_, by decide⟩, fun _ _ _ => ?_⟩, fun _ _ => trivial⟩
    · rintro row ⟨⟩
    · rintro row ⟨⟩
      exact ⟨rfl, by decide⟩
  exact ⟨_, consistent, rfl,
    (thread_timelines_tile_iff false wokenInTime _ consistent rfl).2 settled
      wokenInTime _ (prefix_refl _) rfl⟩

def wokenUnseen : List CpuCall :=
  [.insertWakeupEvent 9 5 false, .insertSwitchEvent ⟨10, 0, 5, 1, 6, 120⟩,
    .insertSwitchEvent ⟨20, 0, 6, 1, 5, 120⟩]

/-- The wakeup, from before the row, ends it. -/
theorem not_tilesThread_wokenUnseen :
    ∃ filter, EachStep Schedule.follow Schedule.Allows .initial wokenUnseen ∧
      runPartial CpuFilter.step (.initial false) wokenUnseen = some filter ∧
      ¬ TilesThread filter.states 5 := by
  refine ⟨_, ?_, rfl, ?_⟩
  · simp only [wokenUnseen, EachStep, Schedule.Allows, Schedule.follow, Schedule.initial]
    refine ⟨by decide, ⟨by decide, by simp, by simp⟩,
      ⟨by decide, by simp, ?_⟩, trivial⟩
    intro _ cpu other
    simp [other]
  · intro tiles
    have first := (isChain_cons_cons.1 tiles.meets).1.1
    exact absurd first (by decide)

end SysAnalyzer.Filter
