import SysAnalyzer.Filter.ThreadTimeline

/-!
# Open rows of lossy traces

When switch events are missing, a CPU may find that the thread it was running is
gone; the `End` branch then leaves the row of that thread open.  Apart from
these abandoned rows a thread has at most one open row along every run whose
switches are settled: every open row is the current one of its thread or has
been abandoned.
-/

namespace SysAnalyzer.Filter

open Foundation List Option
open Base

/-- The `End` branch of some switch of the run leaves the row open. -/
def Abandoned (enabled : Bool) (calls : List CpuCall) (row : Nat) : Prop :=
  SomeStep CpuFilter.step (.initial enabled) (fun filter call =>
    ∃ event, call = .insertSwitchEvent event ∧ filter.states.abandonedBySwitch event = some row)
    calls

def OneOpenRow (abandoned : Nat → Prop) (states : ThreadStates) (itid : UInt32) : Prop :=
  ∀ first ∈ threadRowsOf itid states.rows, ∀ second ∈ threadRowsOf itid states.rows,
    first.1.dur = invalidTime → second.1.dur = invalidTime →
      ¬ abandoned first.2 → ¬ abandoned second.2 → first = second

def ClosesOpen (row : ThreadStateRow) (ts : UInt64) : Prop := ts - row.ts ≠ invalidTime

def OpenRowsStep (filter : CpuFilter) : CpuCall → Prop
  | .insertSwitchEvent event => SettledSwitch ClosesOpen filter.states event
  | _ => True

def IsSwitchOrWakeup : CpuCall → Prop
  | .insertSwitchEvent _ => True
  | .insertWakeupEvent _ _ _ => True
  | _ => False

/-! ## Accounting for open rows -/

/-- Every row that a thread has left open has been abandoned. -/
structure ThreadTimeline.Accounts (timeline : ThreadTimeline)
    (abandoned : Nat → Prop) : Prop where
  left : ∀ entry ∈ timeline.past, entry.1.dur = invalidTime → abandoned entry.2
  current : ∀ current ∈ timeline.current, ¬ abandoned current.number

section Moves

variable {timeline : ThreadTimeline} {abandoned : Nat → Prop}

theorem oneOpenRow_of_accounts {states : ThreadStates} {itid : UInt32}
    (represents : Represents states itid timeline) (accounts : timeline.Accounts abandoned) :
    OneOpenRow abandoned states itid := by
  intro first atFirst second atSecond firstOpen secondOpen firstKept secondKept
  rw [represents.rows, ThreadTimeline.rows, mem_append] at atFirst atSecond
  rcases atFirst with firstPast | isFirst
  · exact absurd (accounts.left first firstPast firstOpen) firstKept
  rcases atSecond with secondPast | isSecond
  · exact absurd (accounts.left second secondPast secondOpen) secondKept
  cases isCurrent : timeline.current with
  | none => simp [isCurrent] at isFirst
  | some current =>
    simp only [isCurrent, map_some, toList_some, mem_singleton] at isFirst isSecond
    rw [isFirst, isSecond]

section

variable (accounts : timeline.Accounts abandoned)
include accounts

theorem ThreadTimeline.Accounts.enter {ts : UInt64} {next : CurrentRow}
    (closes : ∀ current ∈ timeline.current, ts - current.row.ts ≠ invalidTime)
    (fresh : ¬ abandoned next.number) : (timeline.enter ts next).Accounts abandoned where
  left := by
    intro entry member isOpen
    rcases mem_append.1 member with earlier | last
    · exact accounts.left entry earlier isOpen
    · rw [mem_toList, map_eq_some_iff] at last
      rcases last with ⟨current, isCurrent, rfl⟩
      exact absurd isOpen (closes current isCurrent)
  current := by simpa [ThreadTimeline.enter] using fresh

theorem ThreadTimeline.Accounts.forgetWakeup : timeline.forgetWakeup.Accounts abandoned :=
  ⟨accounts.left, accounts.current⟩

theorem ThreadTimeline.Accounts.run {event : SwitchEvent} {woken number : Nat}
    (settled : match timeline.pending with
      | some wakeup =>
        (∀ current ∈ timeline.current, wakeup - current.row.ts ≠ invalidTime) ∧
          event.ts - wakeup ≠ invalidTime
      | none => ∀ current ∈ timeline.current, event.ts - current.row.ts ≠ invalidTime)
    (freshWoken : ¬ abandoned woken) (fresh : ¬ abandoned number) :
    (timeline.run event woken number).Accounts abandoned := by
  unfold ThreadTimeline.run ThreadTimeline.wake
  cases waits : timeline.pending with
  | none =>
    rw [waits] at settled
    exact accounts.forgetWakeup.enter settled fresh
  | some wakeup =>
    rw [waits] at settled
    have entered : (timeline.enter wakeup (ThreadTimeline.wokenRow event.nextPid wakeup
      woken)).Accounts abandoned :=
      accounts.enter settled.1 freshWoken
    refine entered.forgetWakeup.enter ?_ fresh
    intro current isCurrent
    simp only [ThreadTimeline.forgetWakeup, ThreadTimeline.enter, mem_some_iff] at isCurrent
    subst isCurrent
    exact settled.2

theorem ThreadTimeline.Accounts.stop {event : SwitchEvent} {number : Nat}
    (settled : ∀ current ∈ timeline.current,
      event.ts - current.row.ts ≠ invalidTime) (fresh : ¬ abandoned number) :
    (timeline.stop event number).Accounts abandoned := by
  unfold ThreadTimeline.stop
  split
  · exact accounts.forgetWakeup.enter settled fresh
  · exact accounts.enter settled fresh

end

end Moves

structure Accounted (abandoned : Nat → Prop) (states : ThreadStates) :
    Prop where
  timelines : ∀ itid, ∃ timeline, Represents states itid timeline ∧ timeline.Accounts abandoned
  onCpu : ∀ cpu number, states.cpuToRowThreadState cpu = some number → ∃ row : ThreadStateRow,
    states.rows[number]? = some row ∧ row.cpu = cpu ∧ ¬ abandoned number
  before : ∀ number, abandoned number → number < states.rows.length

section Parts

variable {abandoned : Nat → Prop} {states middle next : ThreadStates}
  {event : SwitchEvent} {row : Option Nat} {gone : Option UInt32}

/-- The rows abandoned before or by the switch. -/
def AbandonedAfter (abandoned : Nat → Prop) (states : ThreadStates)
    (event : SwitchEvent) (number : Nat) : Prop :=
  abandoned number ∨ states.abandonedBySwitch event = some number

variable {number : Nat}

theorem Accounted.abandonedAfter_lt (accounted : Accounted abandoned states)
    (letsRun : LetsRun gone states middle event)
    (isAbandoned : AbandonedAfter abandoned states event number) : number < states.rows.length := by
  rcases isAbandoned with before | bySwitch
  · exact accounted.before number before
  · rcases letsRun.abandoned bySwitch with ⟨_, _, onCpu, _⟩
    rcases accounted.onCpu event.cpu number onCpu with ⟨_, found, _⟩
    exact (List.getElem?_eq_some_iff.1 found).1

theorem Accounted.abandoned_current (accounted : Accounted abandoned states)
    (letsRun : LetsRun gone states middle event)
    (bySwitch : states.abandonedBySwitch event = some number)
    {itid : UInt32} (isGone : gone = some itid) {timeline : ThreadTimeline}
    (represents : Represents states itid timeline) (accounts : timeline.Accounts abandoned) :
    ∃ current, timeline.current = some current ∧ current.number = number := by
  rcases letsRun.abandoned bySwitch with ⟨later, sameGone, onCpu, atLater, isOpen⟩
  rw [isGone, some.injEq] at sameGone
  rcases accounted.onCpu event.cpu number onCpu with
    ⟨found, atRow, _, notAbandoned⟩
  rcases letsRun.grows number found atRow with ⟨same, atSame, change⟩
  rw [atLater, some.injEq] at atSame
  subst atSame
  have stillOpen : found.dur = invalidTime ∧ found.itid = itid := by
    rcases change with rfl | ⟨wasOpen, ts, rfl⟩
    · exact ⟨isOpen, sameGone.symm⟩
    · exact ⟨wasOpen, sameGone.symm⟩
  have member : (found, number) ∈ threadRowsOf itid states.rows :=
    mem_keptRows.2 ⟨atRow, decide_eq_true stillOpen.2⟩
  rw [represents.rows, ThreadTimeline.rows, mem_append] at member
  rcases member with earlier | last
  · exact absurd (accounts.left _ earlier stillOpen.1) notAbandoned
  · rw [mem_toList, map_eq_some_iff] at last
    rcases last with ⟨current, isCurrent, same⟩
    exact ⟨current, isCurrent, congrArg Prod.snd same⟩

theorem SettledSwitch.accounts_run (settled : SettledSwitch ClosesOpen states event)
    (notIdle : event.nextPid ≠ 0) {timeline : ThreadTimeline}
    (represents : Represents states event.nextPid timeline)
    (accounts : timeline.Accounts abandoned) {woken : Nat}
    (freshWoken : ¬ abandoned woken) (fresh : ¬ abandoned number) :
    (timeline.run event woken number).Accounts abandoned := by
  refine accounts.run ?_ freshWoken fresh
  have ofNext := settled.next notIdle
  rw [represents.pendingWakeup, represents.currentRow] at ofNext
  cases waits : timeline.pending with
  | none => simpa [waits] using ofNext
  | some wakeup => simpa [waits, ClosesOpen] using ofNext

theorem Accounted.next_stays (accounted : Accounted abandoned states)
    (settled : SettledSwitch ClosesOpen states event)
    (letsRun : LetsRun gone states middle event) (notIdle : event.nextPid ≠ 0) :
    gone ≠ some event.nextPid := by
  intro isGone
  rcases letsRun.leaves event.nextPid isGone with
    ⟨number, later, bySwitch, onCpu, atLater, isOwn, isOpen⟩
  rcases accounted.onCpu event.cpu number onCpu with
    ⟨found, atRow, _, notAbandoned⟩
  have inRange := (List.getElem?_eq_some_iff.1 atRow).1
  rcases accounted.timelines event.nextPid with
    ⟨timeline, represents, accounts⟩
  rcases letsRun.runs notIdle timeline represents with
    ⟨woken, begun, freshWoken, fresh, rows, _⟩
  have accountsRun : (timeline.run event woken begun).Accounts abandoned := by
    refine settled.accounts_run notIdle represents accounts ?_ ?_
    · intro isAbandoned
      have := accounted.before woken isAbandoned
      omega
    · intro isAbandoned
      have := accounted.before begun isAbandoned
      omega
  have member : (later, number) ∈ threadRowsOf event.nextPid middle.rows :=
    mem_keptRows.2 ⟨atLater, decide_eq_true isOwn⟩
  rw [rows, ThreadTimeline.rows, mem_append] at member
  rcases member with earlier | last
  · exact notAbandoned (accountsRun.left _ earlier isOpen)
  · have isBegun : number = begun := by
      simp only [ThreadTimeline.run, ThreadTimeline.enter, map_some,
        toList_some, mem_singleton, Prod.mk.injEq] at last
      exact last.2
    omega

/-- The open rows stay accounted for when a thread is let run. -/
theorem Accounted.letsRun (accounted : Accounted abandoned states)
    (settled : SettledSwitch ClosesOpen states event) (letsRun : LetsRun gone states middle event) :
    Accounted (AbandonedAfter abandoned states event) middle := by
  have fresh : ∀ number, states.rows.length ≤ number →
    ¬ AbandonedAfter abandoned states event number := by
    intro number isFresh isAbandoned
    have := accounted.abandonedAfter_lt letsRun isAbandoned
    omega
  by_cases idle : event.nextPid = 0
  · have same := letsRun.idle idle
    subst same
    have noRow : AbandonedAfter abandoned middle event = abandoned := by
      ext number
      simp [AbandonedAfter, ThreadStates.abandonedBySwitch, idle]
    rw [noRow]
    exact accounted
  refine ⟨?_, ?_, ?_⟩
  · intro itid
    rcases accounted.timelines itid with ⟨timeline, represents, accounts⟩
    -- a thread that is not abandoned keeps its current row
    have keeps : gone ≠ some itid → timeline.Accounts (AbandonedAfter abandoned states event) := by
      intro stays
      refine ⟨fun entry member isOpen => .inl (accounts.left entry member isOpen), ?_⟩
      rintro current isCurrent (before | bySwitch)
      · exact accounts.current current isCurrent before
      · rcases letsRun.abandoned bySwitch with ⟨later, isGone, _, atLater, _⟩
        rcases represents.getElem?_current isCurrent with ⟨atRow, isOwn⟩
        rcases letsRun.grows _ _ atRow with ⟨same, atSame, change⟩
        rw [atLater, some.injEq] at atSame
        subst atSame
        apply stays
        rw [isGone, ← isOwn]
        rcases change with rfl | ⟨_, ts, rfl⟩ <;> rfl
    by_cases isNext : itid = event.nextPid
    · subst isNext
      have stays := accounted.next_stays settled letsRun idle
      rcases letsRun.runs idle timeline represents with
        ⟨woken, number, freshWoken, freshRow, _, runs, _⟩
      exact ⟨_, runs stays, settled.accounts_run idle represents (keeps stays)
        (fresh woken freshWoken) (fresh number freshRow)⟩
    · by_cases isGone : gone = some itid
      · refine ⟨_, letsRun.abandons itid timeline isNext isGone represents, ?_,
          by simp [ThreadTimeline.abandon]⟩
        intro entry member isOpen
        rcases mem_append.1 member with earlier | last
        · exact .inl (accounts.left entry earlier isOpen)
        · rw [mem_toList, map_eq_some_iff] at last
          rcases last with ⟨current, isCurrent, rfl⟩
          rcases letsRun.leaves itid isGone with ⟨number, _, bySwitch, _⟩
          rcases accounted.abandoned_current letsRun bySwitch isGone
            represents accounts with ⟨same, isSame, rfl⟩
          rw [isCurrent, some.injEq] at isSame
          subst isSame
          exact .inr bySwitch
      · exact ⟨timeline, letsRun.others itid timeline isNext isGone represents, keeps isGone⟩
  · intro cpu number isOnCpu
    rcases accounted.timelines event.nextPid with ⟨timeline, represents, _⟩
    rcases letsRun.runs idle timeline represents with
      ⟨woken, begun, _, freshRow, _, runs, newOnCpu⟩
    have running := runs (accounted.next_stays settled letsRun idle)
    rw [newOnCpu] at isOnCpu
    by_cases here : cpu = event.cpu
    · subst here
      rw [Function.update_self, some.injEq] at isOnCpu
      subst isOnCpu
      exact ⟨_, (running.getElem?_current rfl).1, rfl, fresh begun freshRow⟩
    · rw [Function.update_of_ne here] at isOnCpu
      rcases accounted.onCpu cpu number isOnCpu with
        ⟨found, atRow, sameCpu, notAbandoned⟩
      rcases letsRun.grows number found atRow with ⟨later, atLater, change⟩
      refine ⟨later, atLater, ?_, ?_⟩
      · rcases change with rfl | ⟨_, ts, rfl⟩ <;> exact sameCpu
      · rintro (before | bySwitch)
        · exact notAbandoned before
        · rcases letsRun.abandoned bySwitch with ⟨_, _, onCpu, _⟩
          rcases accounted.onCpu event.cpu number onCpu with
            ⟨same, atSame, otherCpu, _⟩
          rw [atRow, some.injEq] at atSame
          subst atSame
          exact here (sameCpu.symm.trans otherCpu)
  · intro number isAbandoned
    exact lt_of_lt_of_le (accounted.abandonedAfter_lt letsRun isAbandoned)
      letsRun.grows.length_le

theorem Accounted.stop (accounted : Accounted abandoned middle) (stoppable :
    event.prevPid ≠ 0 → middle.isChangeCpu event = false → Stoppable middle event)
    (switched : middle.switchPrev event = some (next, row)) : Accounted abandoned next := by
  by_cases skipped : event.prevPid = 0 ∨ middle.isChangeCpu event = true
  · rw [switchPrev_skipped skipped switched]
    exact accounted
  simp only [not_or, Bool.not_eq_true] at skipped
  rcases skipped with ⟨notIdle, staysOnCpu⟩
  rcases accounted.timelines event.prevPid with
    ⟨prevTimeline, ofPrev, prevAccounts⟩
  have canStop := (stoppable notIdle staysOnCpu).canStop ofPrev
  rcases ofPrev.switchPrev notIdle staysOnCpu canStop.1 switched with
    ⟨number, isFresh, stopped, frames⟩
  have fresh : ¬ abandoned number := by
    intro isAbandoned
    have := accounted.before number isAbandoned
    omega
  refine ⟨?_, ?_, ?_⟩
  · intro itid
    by_cases isPrev : itid = event.prevPid
    · subst isPrev
      exact ⟨_, stopped, prevAccounts.stop canStop.2 fresh⟩
    · rcases accounted.timelines itid with ⟨timeline, represents, accounts⟩
      exact ⟨timeline, frames.others itid timeline isPrev represents, accounts⟩
  · intro cpu number isOnCpu
    rw [frames.onCpu] at isOnCpu
    rcases accounted.onCpu cpu number isOnCpu with
      ⟨found, atRow, sameCpu, notAbandoned⟩
    rcases frames.grows number found atRow with ⟨later, atLater, change⟩
    refine ⟨later, atLater, ?_, notAbandoned⟩
    rcases change with rfl | ⟨_, ts, rfl⟩ <;> exact sameCpu
  · intro number isAbandoned
    exact lt_of_lt_of_le (accounted.before number isAbandoned) frames.grows.length_le

theorem Accounted.switch (accounted : Accounted abandoned states)
    (settled : SettledSwitch ClosesOpen states event)
    (switched : states.insertSwitch event = some (next, row)) :
    Accounted (AbandonedAfter abandoned states event) next := by
  rcases insertSwitch_eq_some switched with ⟨middle, letNext, letPrev⟩
  have known : event.nextPid ≠ 0 → ∃ timeline, Represents states event.nextPid timeline := by
    intro _
    rcases accounted.timelines event.nextPid with ⟨timeline, represents, _⟩
    exact ⟨timeline, represents⟩
  rcases letsRun_of_switchNext known letNext with ⟨gone, letsRun⟩
  rcases accounted.timelines event.prevPid with ⟨_, ofPrev, _⟩
  exact (accounted.letsRun settled letsRun).stop
    (fun notIdle => settled.stoppable letsRun notIdle ofPrev) letPrev

theorem Accounted.wakeup (accounted : Accounted abandoned states)
    (ts : UInt64) (internalTid : UInt32) (isWaking : Bool) :
    Accounted abandoned (states.insertWakeupEvent ts internalTid isWaking) := by
  unfold ThreadStates.insertWakeupEvent
  split
  · refine ⟨?_, accounted.onCpu, accounted.before⟩
    intro itid
    rcases accounted.timelines itid with ⟨timeline, represents, accounts⟩
    by_cases here : itid = internalTid
    · subst here
      exact ⟨{ timeline with wakeup := some ts },
        ⟨represents.rows, represents.current, by simp, represents.isOpen⟩,
        accounts.left, accounts.current⟩
    · exact ⟨timeline, ⟨represents.rows, represents.current,
        by simpa [here] using represents.wakeup, represents.isOpen⟩, accounts⟩
  · exact accounted

theorem accounted_initial (enabled : Bool) : Accounted (Abandoned enabled []) .initial where
  timelines := by
    intro itid
    exact ⟨⟨[], none, none⟩, ⟨rfl, rfl, rfl, by simp⟩, by simp, by simp⟩
  onCpu := by
    intro cpu number isOnCpu
    simp [ThreadStates.initial] at isOnCpu
  before := by
    intro number isAbandoned
    exact absurd isAbandoned someStep_nil

end Parts

theorem abandoned_concat_switch {enabled : Bool} {past : List CpuCall} {filter : CpuFilter}
    (event : SwitchEvent) (reached :
      runPartial CpuFilter.step (.initial enabled) past = some filter) :
    Abandoned enabled (past ++ [.insertSwitchEvent event]) =
      AbandonedAfter (Abandoned enabled past) filter.states event := by
  ext row
  refine (someStep_concat _ reached).trans (or_congr Iff.rfl ?_)
  constructor
  · rintro ⟨same, sameCall, bySwitch⟩
    cases sameCall
    exact bySwitch
  · intro bySwitch
    exact ⟨event, rfl, bySwitch⟩

theorem abandoned_concat_wakeup {enabled : Bool} {past : List CpuCall} {filter : CpuFilter}
    (ts : UInt64) (internalTid : UInt32) (isWaking : Bool) (reached :
      runPartial CpuFilter.step (.initial enabled) past = some filter) :
    Abandoned enabled (past ++ [.insertWakeupEvent ts internalTid isWaking]) =
      Abandoned enabled past := by
  ext row
  refine (someStep_concat _ reached).trans (or_iff_left ?_)
  rintro ⟨event, isSwitch, _⟩
  cases isSwitch

/--
Along a run of switches and wakeups whose switches are settled, every thread has
at most one open row besides the abandoned ones, in every state reached.
-/
theorem one_open_row (enabled : Bool) (calls : List CpuCall)
    (kinds : ∀ call ∈ calls, IsSwitchOrWakeup call) (settled :
      EachPartial CpuFilter.step OpenRowsStep (.initial enabled) calls)
    (past : List CpuCall) (filter : CpuFilter) (isPrefix : past <+: calls)
    (reached : runPartial CpuFilter.step (.initial enabled) past = some filter) (itid : UInt32) :
    OneOpenRow (Abandoned enabled past) filter.states itid := by
  rcases isPrefix with ⟨later, rfl⟩
  have pastKinds : ∀ call ∈ past, IsSwitchOrWakeup call :=
    fun call member => kinds call (mem_append_left _ member)
  have pastSettled := ((eachPartial_append _ _ _ past later).1 settled).1
  have accounted : (∀ call ∈ past, IsSwitchOrWakeup call) →
    EachPartial CpuFilter.step OpenRowsStep (.initial enabled) past →
      Accounted (Abandoned enabled past) filter.states := by
    refine runPartial_history (fun past filter =>
      (∀ call ∈ past, IsSwitchOrWakeup call) →
        EachPartial CpuFilter.step OpenRowsStep (.initial enabled) past →
          Accounted (Abandoned enabled past) filter.states)
      (fun _ _ => accounted_initial enabled) ?_ reached
    intro past call state next atPast induction stepped kinds settled
    have split := (eachPartial_append _ _ _ past [call]).1 settled
    have before := induction (fun call member => kinds call (mem_append_left _ member)) split.1
    have atCall := (split.2 state atPast).1
    have kind := kinds call (by simp)
    cases call with
    | insertSwitchEvent event =>
      rcases states_insertSwitchEvent stepped with ⟨row, switched⟩
      rw [abandoned_concat_switch event atPast]
      exact before.switch atCall switched
    | insertWakeupEvent ts internalTid isWaking =>
      cases stepped
      rw [abandoned_concat_wakeup ts internalTid isWaking atPast]
      exact before.wakeup ts internalTid isWaking
    | _ => exact absurd kind id
  rcases (accounted pastKinds pastSettled).timelines itid with
    ⟨timeline, represents, accounts⟩
  exact oneOpenRow_of_accounts represents accounts

def lostSwitch : List CpuCall :=
  [.insertSwitchEvent ⟨10, 0, 0, 0, 5, 120⟩, .insertSwitchEvent ⟨20, 0, 6, 1, 7, 120⟩]

theorem one_open_row_lostSwitch :
    ∃ filter, runPartial CpuFilter.step (.initial false) lostSwitch = some filter ∧
      OneOpenRow (Abandoned false lostSwitch) filter.states 5 := by
  have settled : EachPartial CpuFilter.step OpenRowsStep (.initial false) lostSwitch := by
    refine ⟨⟨fun _ => ?_, fun idle => absurd rfl idle⟩, ?_⟩
    · rintro row ⟨⟩
    rintro first ⟨⟩
    refine ⟨⟨fun _ => ?_, fun _ _ _ => ?_⟩, fun _ _ => trivial⟩
    · rintro row ⟨⟩
    · rintro row ⟨⟩
  exact ⟨_, rfl,
    one_open_row false lostSwitch (by simp [lostSwitch, IsSwitchOrWakeup])
      settled lostSwitch _ (prefix_refl _) rfl 5⟩

def lostSwitchIn : List CpuCall :=
  [.insertSwitchEvent ⟨10, 0, 5, 1, 6, 120⟩, .insertWakeupEvent 20 5 false,
    .insertSwitchEvent ⟨30, 1, 5, 1, 7, 120⟩]

theorem not_oneOpenRow_lostSwitchIn :
    ∃ filter, runPartial CpuFilter.step (.initial false) lostSwitchIn = some filter ∧
      ¬ OneOpenRow (Abandoned false lostSwitchIn) filter.states 5 := by
  refine ⟨_, rfl, ?_⟩
  have kept : ∀ row, ¬ Abandoned false lostSwitchIn row := by
    intro row isAbandoned
    have atThird :=
      abandoned_concat_switch ⟨30, 1, 5, 1, 7, 120⟩ (rfl :
        runPartial CpuFilter.step (.initial false) ([.insertSwitchEvent ⟨10, 0, 5, 1, 6, 120⟩] ++
          [.insertWakeupEvent 20 5 false]) = some _)
    have atSecond :=
      abandoned_concat_wakeup 20 5 false (rfl : runPartial CpuFilter.step (.initial false)
        ([] ++ [.insertSwitchEvent ⟨10, 0, 5, 1, 6, 120⟩]) = some _)
    have atFirst :=
      abandoned_concat_switch ⟨10, 0, 5, 1, 6, 120⟩
        (rfl : runPartial CpuFilter.step (.initial false) [] = some _)
    rcases (congrFun atThird row).mp isAbandoned with before | third
    · rcases (congrFun (atSecond.trans atFirst) row).mp before with
        earlier | first
      · exact someStep_nil earlier
      · cases first
    · cases third
  intro oneOpen
  have same :=
    oneOpen (⟨20, invalidTime, invalidCpu, 5, 0⟩, 3) (by decide)
      (⟨30, invalidTime, invalidCpu, 5, 1⟩, 4) (by decide) rfl rfl (kept _)
      (kept _)
  exact absurd same (by decide)

end SysAnalyzer.Filter
