import SysAnalyzer.Foundation.KeyedRows
import SysAnalyzer.Filter.CpuFilter

/-!
# The timeline of a CPU

The switches on one CPU determine its sched slice rows: each switch opens a
row, and the next switch on the CPU closes it.  `cpuTimeline` is that
description; the filter refines it under every interleaving with other CPUs,
other threads and binder events, as long as the map to the last row of each CPU
is not cleared.  The end state that the receiver of a binder transaction
rewrites is the only difference.
-/

namespace SysAnalyzer.Filter

open Foundation List Option

def switchesOf (cpu : UInt32) (calls : List CpuCall) : List SwitchEvent :=
  calls.filterMap fun call =>
    match call with
    | .insertSwitchEvent event => if event.cpu = cpu then some event else none
    | _ => none

def sliceRowsOf (cpu : UInt32) (rows : List SchedSliceRow) : List (SchedSliceRow × Nat) :=
  keptRows (fun row => decide (row.cpu = cpu)) rows

def openSlice (event : SwitchEvent) : SchedSliceRow :=
  ⟨event.ts, 0, event.cpu, event.nextPid, 0, event.nextPior⟩

def closeSlice (row : SchedSliceRow) (following : SwitchEvent) : SchedSliceRow :=
  { row with dur := following.ts - row.ts, endState := following.prevState }

def cpuTimeline : List SwitchEvent → List SchedSliceRow
  | [] => []
  | [event] => [openSlice event]
  | event :: following :: rest =>
    closeSlice (openSlice event) following :: cpuTimeline (following :: rest)

theorem cpuTimeline_concat (past : List SwitchEvent) (last : SwitchEvent) :
    ∃ closed, cpuTimeline (past ++ [last]) = closed ++ [openSlice last] ∧
      ∀ event, cpuTimeline (past ++ [last] ++ [event]) =
        closed ++ [closeSlice (openSlice last) event] ++ [openSlice event] := by
  induction past with
  | nil => exact ⟨[], rfl, fun _ => rfl⟩
  | cons first rest induction =>
    rcases induction with ⟨closed, opened, extended⟩
    cases rest with
    | nil => exact ⟨[closeSlice (openSlice first) last], rfl, fun _ => rfl⟩
    | cons second tail =>
      refine ⟨closeSlice (openSlice first) second :: closed, ?_, ?_⟩
      · simpa [cpuTimeline] using opened
      · intro event
        simpa [cpuTimeline] using extended event

theorem length_cpuTimeline (switches : List SwitchEvent) :
    (cpuTimeline switches).length = switches.length := by
  fun_induction cpuTimeline switches <;> simp_all

theorem getElem?_cpuTimeline (switches : List SwitchEvent) (position : Nat) :
    (cpuTimeline switches)[position]? = (switches[position]?).map fun event =>
      match switches[position + 1]? with
      | some following => closeSlice (openSlice event) following
      | none => openSlice event := by
  fun_induction cpuTimeline switches generalizing position with
  | case1 => simp
  | case2 event => cases position <;> simp
  | case3 event following rest induction =>
    cases position with
    | zero => simp
    | succ position => simpa using induction position

/-- Some `InsertRunnableBinderRecvEvent` of the run rewrites the row. -/
def Received (enabled : Bool) (calls : List CpuCall) (row : Nat) : Prop :=
  SomeStep CpuFilter.step (.initial enabled) (fun filter call =>
    ∃ transactionId iTid threadStateRow,
      call = .insertRunnableBinderRecvEvent transactionId iTid ∧
        filter.receivedRows transactionId iTid = some (row, threadStateRow))
    calls

def Shows (received : Nat → Prop) (entry : SchedSliceRow × Nat) (expected : SchedSliceRow) : Prop :=
  (¬ received entry.2 ∧ entry.1 = expected) ∨ (received entry.2 ∧
    entry.1 = { expected with endState := taskRunnableBinder })

/--
The rows of a CPU, with their numbers, tile the time of the CPU as its
switches say.
-/
structure TilesCpu (received : Nat → Prop)
    (entries : List (SchedSliceRow × Nat))
    (switches : List SwitchEvent) : Prop where
  count : entries.length = switches.length
  meets : ∀ (i : Nat) (row following : SchedSliceRow × Nat),
    entries[i]? = some row → entries[i + 1]? = some following →
      row.1.ts + row.1.dur = following.1.ts
  lastOpen : ∀ row, entries.getLast? = some row → row.1.dur = 0
  runs : ∀ (i : Nat) (row : SchedSliceRow × Nat) (event : SwitchEvent),
    entries[i]? = some row → switches[i]? = some event → row.1.internalTid = event.nextPid
  ends : ∀ (i : Nat) (row : SchedSliceRow × Nat) (following : SwitchEvent),
    entries[i]? = some row → switches[i + 1]? = some following →
      ¬ received row.2 → row.1.endState = following.prevState

variable {received : Nat → Prop}

theorem shown_switch {entries : List (SchedSliceRow × Nat)} {switches : List SwitchEvent}
    (shows : List.Forall₂ (Shows received) entries (cpuTimeline switches))
    {i : Nat} {row : SchedSliceRow × Nat} (found : entries[i]? = some row) :
    ∃ event, switches[i]? = some event ∧ Shows received row (match switches[i + 1]? with
      | some following => closeSlice (openSlice event) following
      | none => openSlice event) := by
  rcases forall₂_iff_get.1 shows with ⟨sameLength, pointwise⟩
  rcases List.getElem?_eq_some_iff.1 found with ⟨inEntries, here⟩
  have inTimeline : i < (cpuTimeline switches).length := by omega
  have shown := pointwise i inEntries inTimeline
  have expected := getElem?_cpuTimeline switches i
  rw [getElem?_eq_getElem inTimeline] at expected
  rcases map_eq_some_iff.1 expected.symm with ⟨event, atSwitch, same⟩
  refine ⟨event, atSwitch, ?_⟩
  simp only [get_eq_getElem, here, ← same] at shown
  exact shown

variable {entry : SchedSliceRow × Nat} {expected : SchedSliceRow}

section

variable (shown : Shows received entry expected)
include shown

theorem Shows.ts : entry.1.ts = expected.ts := by
  rcases shown with ⟨_, same⟩ | ⟨_, same⟩ <;> rw [same]

theorem Shows.dur : entry.1.dur = expected.dur := by
  rcases shown with ⟨_, same⟩ | ⟨_, same⟩ <;> rw [same]

theorem Shows.internalTid : entry.1.internalTid = expected.internalTid := by
  rcases shown with ⟨_, same⟩ | ⟨_, same⟩ <;> rw [same]

end

theorem tilesCpu_of_shows {entries : List (SchedSliceRow × Nat)} {switches : List SwitchEvent}
    (shows : List.Forall₂ (Shows received) entries (cpuTimeline switches)) :
    TilesCpu received entries switches where
  count := by rw [shows.length_eq, length_cpuTimeline]
  meets := by
    intro i row following atRow atFollowing
    rcases shown_switch shows atRow with ⟨event, _, shown⟩
    rcases shown_switch shows atFollowing with ⟨next, atNext, shownNext⟩
    rw [atNext] at shown
    have begins : following.1.ts = next.ts := by
      rw [shownNext.ts]
      cases switches[i + 1 + 1]? <;> rfl
    rw [shown.ts, shown.dur, begins]
    simp [closeSlice]
  lastOpen := by
    intro row isLast
    rw [getLast?_eq_getElem?] at isLast
    rcases shown_switch shows isLast with ⟨event, atSwitch, shown⟩
    have pastEnd : switches[entries.length - 1 + 1]? = none := by
      rw [getElem?_eq_none_iff, ← length_cpuTimeline switches, ← shows.length_eq]
      omega
    rw [pastEnd] at shown
    exact shown.dur
  runs := by
    intro i row event atRow atSwitch
    rcases shown_switch shows atRow with ⟨same, atSame, shown⟩
    rw [atSwitch, some.injEq] at atSame
    subst atSame
    rw [shown.internalTid]
    cases switches[i + 1]? <;> rfl
  ends := by
    intro i row following atRow atFollowing notReceived
    rcases shown_switch shows atRow with ⟨event, _, shown⟩
    rw [atFollowing] at shown
    rcases shown with ⟨_, same⟩ | ⟨isReceived, _⟩
    · rw [same]
      rfl
    · exact absurd isReceived notReceived

/-! ## The last row of each CPU -/

namespace SchedSlices

/-- The map holds the number of the last row of each CPU that has rows. -/
def RemembersLast (slices : SchedSlices) : Prop :=
  ∀ cpu, (slices.cpuToRowSched cpu).map RowPos.row =
    (sliceRowsOf cpu slices.rows).getLast?.map Prod.snd

def Settled (slices : SchedSlices) (row : Nat) : Prop :=
  row < slices.rows.length ∧ ∀ cpu, (slices.cpuToRowSched cpu).map RowPos.row ≠ some row

variable {slices : SchedSlices}

theorem RemembersLast.entries (remembers : slices.RemembersLast) {cpu : UInt32} {last : RowPos}
    (known : slices.cpuToRowSched cpu = some last) :
    ∃ earlier row, sliceRowsOf cpu slices.rows = earlier ++ [(row, last.row)] := by
  have same := remembers cpu
  rw [known, map_some, eq_comm, map_eq_some_iff] at same
  rcases same with ⟨⟨row, number⟩, isLast, rfl⟩
  rcases getLast?_eq_some_iff.1 isLast with ⟨earlier, split⟩
  exact ⟨earlier, row, split⟩

theorem RemembersLast.entries_nil (remembers : slices.RemembersLast) {cpu : UInt32}
    (unknown : slices.cpuToRowSched cpu = none) : sliceRowsOf cpu slices.rows = [] := by
  have same := remembers cpu
  rw [unknown, map_none, eq_comm, map_eq_none_iff, getLast?_eq_none_iff] at same
  exact same

theorem RemembersLast.row_cpu (remembers : slices.RemembersLast) {cpu : UInt32} {number : Nat}
    (known : (slices.cpuToRowSched cpu).map RowPos.row = some number) :
    ∃ row, slices.rows[number]? = some row ∧ row.cpu = cpu := by
  rcases map_eq_some_iff.1 known with ⟨last, found, rfl⟩
  rcases remembers.entries found with ⟨earlier, row, split⟩
  rcases getElem?_of_keptRows_last split with ⟨atRow, sameCpu⟩
  exact ⟨row, atRow, of_decide_eq_true sameCpu⟩

theorem row_insertSwitch (slices : SchedSlices) (event : SwitchEvent) (cpu : UInt32) :
    ((slices.insertSwitch event).1.cpuToRowSched cpu).map RowPos.row =
      if cpu = event.cpu then some slices.rows.length
      else (slices.cpuToRowSched cpu).map RowPos.row := by
  unfold insertSwitch
  cases slices.cpuToRowSched event.cpu <;> by_cases same : cpu = event.cpu <;> simp [same]

theorem closed_insertSwitch (slices : SchedSlices) (event : SwitchEvent) :
    (slices.insertSwitch event).2 = (slices.cpuToRowSched event.cpu).map RowPos.row := by
  unfold insertSwitch
  cases slices.cpuToRowSched event.cpu <;> rfl

theorem length_insertSwitch (slices : SchedSlices) (event : SwitchEvent) :
    (slices.insertSwitch event).1.rows.length = slices.rows.length + 1 := by
  unfold insertSwitch
  cases slices.cpuToRowSched event.cpu <;> simp [update]

theorem sliceRowsOf_concat (rows : List SchedSliceRow) (event : SwitchEvent) (cpu : UInt32) :
    sliceRowsOf cpu (rows ++ [openSlice event]) = if event.cpu = cpu then
      sliceRowsOf cpu rows ++ [(openSlice event, rows.length)] else sliceRowsOf cpu rows := by
  simp [sliceRowsOf, keptRows_concat, openSlice]

theorem sliceRowsOf_insertSwitch_first (event : SwitchEvent) (cpu : UInt32)
    (unknown : slices.cpuToRowSched event.cpu = none) :
    sliceRowsOf cpu (slices.insertSwitch event).1.rows = if event.cpu = cpu then
      sliceRowsOf cpu slices.rows ++ [(openSlice event, slices.rows.length)]
      else sliceRowsOf cpu slices.rows := by
  rw [← sliceRowsOf_concat]
  simp [insertSwitch, unknown, openSlice]

variable {event : SwitchEvent}

section

variable {last : RowPos} (known : slices.cpuToRowSched event.cpu = some last)
include known

theorem rows_insertSwitch_next (inRange : last.row < slices.rows.length) :
    (slices.insertSwitch event).1.rows = slices.rows.modify last.row (closeSlice · event) ++
      [openSlice event] := by
  rw [← modify_concat_of_lt _ inRange]
  simp [insertSwitch, known, update, openSlice, closeSlice]

theorem sliceRowsOf_insertSwitch_next {row : SchedSliceRow}
    {earlier : List (SchedSliceRow × Nat)} (split :
      sliceRowsOf event.cpu slices.rows = earlier ++ [(row, last.row)]) :
    sliceRowsOf event.cpu (slices.insertSwitch event).1.rows =
      earlier ++ [(closeSlice row event, last.row)] ++ [(openSlice event, slices.rows.length)] := by
  rcases getElem?_of_keptRows_last split with ⟨atRow, _⟩
  have inRange := (List.getElem?_eq_some_iff.1 atRow).1
  have closed : sliceRowsOf event.cpu (slices.rows.modify last.row (closeSlice · event)) =
    earlier ++ [(closeSlice row event, last.row)] := by
    exact keptRows_modify_last (fun _ => rfl) split
  rw [rows_insertSwitch_next known inRange, sliceRowsOf_concat, closed]
  simp

end

theorem sliceRowsOf_insertSwitch_other (remembers : slices.RemembersLast)
    {cpu : UInt32} (otherCpu : event.cpu ≠ cpu) :
    sliceRowsOf cpu (slices.insertSwitch event).1.rows = sliceRowsOf cpu slices.rows := by
  cases known : slices.cpuToRowSched event.cpu with
  | none => simp [sliceRowsOf_insertSwitch_first event cpu known, otherCpu]
  | some last =>
    have mapped : (slices.cpuToRowSched event.cpu).map RowPos.row = some last.row := by simp [known]
    rcases remembers.row_cpu mapped with ⟨row, atRow, sameCpu⟩
    have inRange := (List.getElem?_eq_some_iff.1 atRow).1
    rw [rows_insertSwitch_next known inRange, sliceRowsOf_concat, if_neg otherCpu]
    refine keptRows_modify_of_not_kept (fun _ => rfl) ?_
    intro found atFound
    rw [atRow, some.injEq] at atFound
    subst atFound
    simpa [sameCpu] using otherCpu

theorem RemembersLast.insertSwitch (remembers : slices.RemembersLast) (event : SwitchEvent) :
    (slices.insertSwitch event).1.RemembersLast := by
  intro cpu
  rw [row_insertSwitch]
  by_cases sameCpu : cpu = event.cpu
  · subst sameCpu
    cases known : slices.cpuToRowSched event.cpu with
    | none => simp [sliceRowsOf_insertSwitch_first event event.cpu known]
    | some last =>
      rcases remembers.entries known with ⟨earlier, row, split⟩
      simp [sliceRowsOf_insertSwitch_next known split]
  · rw [if_neg sameCpu, sliceRowsOf_insertSwitch_other remembers (Ne.symm sameCpu)]
    exact remembers cpu

theorem Settled.insertSwitch {row : Nat} (settled : slices.Settled row) (event : SwitchEvent) :
    (slices.insertSwitch event).1.Settled row := by
  refine ⟨by rw [length_insertSwitch]; exact Nat.lt_succ_of_lt settled.1, ?_⟩
  intro cpu
  rw [row_insertSwitch]
  by_cases sameCpu : cpu = event.cpu
  · simpa [sameCpu] using ne_of_gt settled.1
  · simpa [sameCpu] using settled.2 cpu

theorem settled_closed (remembers : slices.RemembersLast) {row : Nat}
    (closed : (slices.insertSwitch event).2 = some row) :
    (slices.insertSwitch event).1.Settled row := by
  rw [closed_insertSwitch] at closed
  rcases remembers.row_cpu closed with ⟨found, atRow, sameCpu⟩
  have inRange := (List.getElem?_eq_some_iff.1 atRow).1
  refine ⟨by rw [length_insertSwitch]; exact Nat.lt_succ_of_lt inRange, ?_⟩
  intro cpu
  rw [row_insertSwitch]
  by_cases here : cpu = event.cpu
  · simpa [here] using ne_of_gt inRange
  · rw [if_neg here]
    intro clash
    rcases remembers.row_cpu clash with ⟨other, atOther, otherCpu⟩
    rw [atRow, some.injEq] at atOther
    subst atOther
    exact here (otherCpu.symm.trans sameCpu)

end SchedSlices

namespace BinderTransactions

theorem info_transactionClear {transactions : BinderTransactions} {iTidFrom cleared id : UInt32}
    {info : BinderTransactionInfo} (found :
      (transactions.transactionClear iTidFrom cleared).transactionIdToInfo id =
        some info) : transactions.transactionIdToInfo id = some info := by
  unfold transactionClear at found
  cases known : transactions.transactionIdToInfo cleared with
  | none => simpa [known] using found
  | some old =>
    by_cases same : id = cleared
    · simp [known, same] at found
    · simpa [known, same] using found

theorem info_insertSwitch {transactions : BinderTransactions} {event : SwitchEvent}
    {schedSliceRow threadStateRow : Option Nat} {id : UInt32}
    {info : BinderTransactionInfo} (found : (transactions.insertSwitch event schedSliceRow
      threadStateRow).transactionIdToInfo id = some info) :
    transactions.transactionIdToInfo id = some info ∨ info.schedSliceRow = schedSliceRow := by
  unfold insertSwitch at found
  split at found
  · exact .inl found
  · next transactionId _ =>
      split at found
      · exact .inl (info_transactionClear found)
      · by_cases same : id = transactionId
        · simp only [same, Function.update_self, some.injEq] at found
          exact .inr (by rw [← found])
        · exact .inl (by simpa [same] using found)

end BinderTransactions

variable {enabled : Bool} {past : List CpuCall} {filter : CpuFilter}

theorem received_concat_recv (transactionId iTid : UInt32) (reached :
    runPartial CpuFilter.step (.initial enabled) past = some filter) (row : Nat) :
    Received enabled (past ++ [.insertRunnableBinderRecvEvent transactionId iTid]) row ↔
      Received enabled past row ∨ ∃ threadStateRow, filter.receivedRows transactionId iTid =
        some (row, threadStateRow) := by
  refine (someStep_concat _ reached).trans (or_congr Iff.rfl ?_)
  constructor
  · rintro ⟨id, thread, stateRow, sameCall, rows⟩
    cases sameCall
    exact ⟨stateRow, rows⟩
  · rintro ⟨stateRow, rows⟩
    exact ⟨transactionId, iTid, stateRow, rfl, rows⟩

theorem received_concat_other {call : CpuCall} (reached :
    runPartial CpuFilter.step (.initial enabled) past = some filter)
    (notRecv : ∀ transactionId iTid, call ≠ .insertRunnableBinderRecvEvent transactionId iTid) :
    Received enabled (past ++ [call]) = Received enabled past := by
  ext row
  refine (someStep_concat _ reached).trans (or_iff_left ?_)
  rintro ⟨transactionId, iTid, _, isRecv, _⟩
  exact notRecv transactionId iTid isRecv

/-! ## Every run follows the timelines -/

/-- The rows of every CPU show its timeline, and the filter knows their ends. -/
structure FollowsTimeline (enabled : Bool) (past : List CpuCall)
    (filter : CpuFilter) : Prop where
  shows : ∀ cpu, List.Forall₂ (Shows (Received enabled past)) (sliceRowsOf cpu filter.slices.rows)
    (cpuTimeline (switchesOf cpu past))
  remembers : filter.slices.RemembersLast
  waiting : ∀ id info row, filter.transactions.transactionIdToInfo id = some info →
    info.schedSliceRow = some row → filter.slices.Settled row
  received : ∀ row, Received enabled past row → filter.slices.Settled row

theorem followsTimeline_initial (enabled : Bool) :
    FollowsTimeline enabled [] (.initial enabled) where
  shows := fun _ => List.Forall₂.nil
  remembers := fun _ => rfl
  waiting := by
    intro id info row found
    simp [CpuFilter.initial, BinderTransactions.initial] at found
  received := by
    intro row isReceived
    exact absurd isReceived someStep_nil

variable {next : CpuFilter}

theorem FollowsTimeline.of_same_slices {call : CpuCall}
    (follows : FollowsTimeline enabled past filter) (reached :
      runPartial CpuFilter.step (.initial enabled) past = some filter)
    (notSwitch : ∀ event, call ≠ .insertSwitchEvent event) (notRecv : ∀ transactionId iTid,
      call ≠ .insertRunnableBinderRecvEvent transactionId iTid)
    (sameSlices : next.slices = filter.slices) (noNewRow : ∀ id info row,
      next.transactions.transactionIdToInfo id = some info → info.schedSliceRow = some row →
        filter.transactions.transactionIdToInfo id = some info) :
    FollowsTimeline enabled (past ++ [call]) next := by
  have sameSwitches : ∀ cpu, switchesOf cpu (past ++ [call]) = switchesOf cpu past := by
    intro cpu
    cases call with
    | insertSwitchEvent event => exact absurd rfl (notSwitch event)
    | _ => simp [switchesOf]
  refine ⟨?_, ?_, ?_, ?_⟩
  · intro cpu
    rw [received_concat_other reached notRecv, sameSlices, sameSwitches]
    exact follows.shows cpu
  · rw [sameSlices]
    exact follows.remembers
  · intro id info row found hasRow
    rw [sameSlices]
    exact follows.waiting id info row (noNewRow id info row found hasRow) hasRow
  · rw [received_concat_other reached notRecv, sameSlices]
    exact follows.received

theorem insertSwitchEvent_parts {event : SwitchEvent}
    (stepped : filter.insertSwitchEvent event = some next) :
    next.slices = (filter.slices.insertSwitch event).1 ∧ ∀ id info row,
      next.transactions.transactionIdToInfo id = some info → info.schedSliceRow = some row →
        filter.transactions.transactionIdToInfo id = some info ∨
          (filter.slices.insertSwitch event).2 = some row := by
  unfold CpuFilter.insertSwitchEvent at stepped
  rcases map_eq_some_iff.1 stepped with ⟨⟨states, stateRow⟩, _, rfl⟩
  refine ⟨rfl, ?_⟩
  intro id info row found hasRow
  by_cases enabled : filter.binderRunnableTraceEnabled = true
  · simp only [enabled, if_true] at found
    rcases BinderTransactions.info_insertSwitch found with known | added
    · exact .inl known
    · exact .inr (added.symm.trans hasRow)
  · simp only [enabled] at found
    exact .inl found

theorem FollowsTimeline.shows_switch
    (follows : FollowsTimeline enabled past filter) (event : SwitchEvent) :
    List.Forall₂ (Shows (Received enabled past))
      (sliceRowsOf event.cpu (filter.slices.insertSwitch event).1.rows)
      (cpuTimeline (switchesOf event.cpu past ++ [event])) := by
  have shows := follows.shows event.cpu
  have newRow : Shows (Received enabled past)
    (openSlice event, filter.slices.rows.length) (openSlice event) := by
    refine .inl ⟨?_, rfl⟩
    intro isReceived
    exact lt_irrefl _ (follows.received _ isReceived).1
  cases known : filter.slices.cpuToRowSched event.cpu with
  | none =>
    have empty := follows.remembers.entries_nil known
    rw [empty, forall₂_nil_left_iff] at shows
    have noSwitch : switchesOf event.cpu past = [] := by
      rw [← length_eq_zero_iff, ← length_cpuTimeline, shows]
      rfl
    rw [SchedSlices.sliceRowsOf_insertSwitch_first event event.cpu known,
      if_pos rfl, empty, noSwitch]
    exact .cons newRow .nil
  | some last =>
    rcases follows.remembers.entries known with ⟨earlier, row, split⟩
    have someSwitch : switchesOf event.cpu past ≠ [] := by
      intro noSwitch
      rw [noSwitch, split] at shows
      simpa [cpuTimeline] using shows.length_eq
    rcases eq_nil_or_concat' (switchesOf event.cpu past) with
      noSwitch | ⟨before, latest, isLatest⟩
    · exact absurd noSwitch someSwitch
    rcases cpuTimeline_concat before latest with ⟨closed, opened, extended⟩
    rw [split, isLatest, opened, ← forall₂_reverse_iff] at shows
    simp only [reverse_append, reverse_singleton, singleton_append, forall₂_cons] at shows
    rw [forall₂_reverse_iff] at shows
    rcases shows with ⟨shownLast, shownEarlier⟩
    -- the row that is closed now is still as its switch opened it
    have notReceived : ¬ Received enabled past last.row := by
      intro isReceived
      exact (follows.received _ isReceived).2 event.cpu (by rw [known]; rfl)
    have rowOpen : row = openSlice latest := by
      rcases shownLast with ⟨_, same⟩ | ⟨isReceived, _⟩
      · exact same
      · exact absurd isReceived notReceived
    rw [SchedSlices.sliceRowsOf_insertSwitch_next known split, isLatest, extended, rowOpen]
    have shownClosed : Shows (Received enabled past) (closeSlice (openSlice latest) event, last.row)
      (closeSlice (openSlice latest) event) := by
      exact .inl ⟨notReceived, rfl⟩
    exact rel_append (rel_append shownEarlier (.cons shownClosed .nil)) (.cons newRow .nil)

theorem FollowsTimeline.switch {event : SwitchEvent}
    (follows : FollowsTimeline enabled past filter) (reached :
      runPartial CpuFilter.step (.initial enabled) past = some filter)
    (stepped : filter.insertSwitchEvent event = some next) :
    FollowsTimeline enabled (past ++ [.insertSwitchEvent event]) next := by
  rcases insertSwitchEvent_parts stepped with ⟨slices, transactions⟩
  have sameReceived : Received enabled (past ++ [.insertSwitchEvent event]) =
    Received enabled past := by
    apply received_concat_other reached
    intro _ _
    simp
  refine ⟨?_, ?_, ?_, ?_⟩
  · intro cpu
    rw [sameReceived, slices]
    by_cases sameCpu : event.cpu = cpu
    · subst sameCpu
      simpa [switchesOf] using follows.shows_switch event
    · rw [SchedSlices.sliceRowsOf_insertSwitch_other follows.remembers sameCpu]
      simpa [switchesOf, sameCpu] using follows.shows cpu
  · rw [slices]
    exact follows.remembers.insertSwitch event
  · intro id info row found hasRow
    rw [slices]
    rcases transactions id info row found hasRow with known | closed
    · exact (follows.waiting id info row known hasRow).insertSwitch event
    · exact SchedSlices.settled_closed follows.remembers closed
  · rw [sameReceived, slices]
    intro row isReceived
    exact (follows.received row isReceived).insertSwitch event

/-- The end state that a receiver gives a row. -/
def receiveSlice (row : SchedSliceRow) : SchedSliceRow :=
  { row with endState := taskRunnableBinder }

theorem Shows.receive (shown : Shows received entry expected) (row : Nat) :
    Shows (fun number => received number ∨ number = row)
      (changeEntry row receiveSlice entry) expected := by
  by_cases here : entry.2 = row
  · refine .inr ⟨.inr (by simp [changeEntry, here]), ?_⟩
    rcases shown with ⟨_, same⟩ | ⟨_, same⟩ <;> simp [changeEntry, here, receiveSlice, same]
  · simpa [Shows, changeEntry, here] using shown

theorem sliceRowsOf_updateEndState (cpu : UInt32) (rows : List SchedSliceRow) (row : Nat) :
    sliceRowsOf cpu (SchedSlices.updateEndState rows row taskRunnableBinder) =
      (sliceRowsOf cpu rows).map (changeEntry row receiveSlice) :=
  keptRows_modify row fun _ => rfl

theorem SchedSlices.RemembersLast.updateEndState
    {slices : SchedSlices} (remembers : slices.RemembersLast) (row : Nat) :
    RemembersLast { slices with rows :=
      SchedSlices.updateEndState slices.rows row taskRunnableBinder } := by
  intro cpu
  have sameNumber : Prod.snd ∘ changeEntry row receiveSlice = Prod.snd := by
    ext entry
    by_cases here : entry.2 = row <;> simp [changeEntry, here]
  simpa only [sliceRowsOf_updateEndState, List.getLast?_map, Option.map_map,
    sameNumber] using remembers cpu

theorem SchedSlices.Settled.updateEndState
    {slices : SchedSlices} {row : Nat} (settled : slices.Settled row) (changed : Nat) :
    Settled { slices with
        rows :=
          SchedSlices.updateEndState slices.rows changed
            taskRunnableBinder } row := by
  refine ⟨?_, settled.2⟩
  simpa [SchedSlices.updateEndState] using settled.1

variable {transactionId iTid : UInt32}

theorem receivedRows_info {schedSliceRow threadStateRow : Nat} (rows :
    filter.receivedRows transactionId iTid = some (schedSliceRow, threadStateRow)) :
    ∃ info, filter.transactions.transactionIdToInfo transactionId = some info ∧
      info.schedSliceRow = some schedSliceRow := by
  unfold CpuFilter.receivedRows at rows
  split at rows
  · next found =>
      split at rows
      · cases rows
        exact ⟨_, found, rfl⟩
      · cases rows
  · cases rows

theorem insertRunnableBinderRecvEvent_of_none
    (noRows : filter.receivedRows transactionId iTid = none) :
    (filter.insertRunnableBinderRecvEvent transactionId iTid).slices = filter.slices := by
  unfold CpuFilter.insertRunnableBinderRecvEvent
  rw [noRows]
  split <;> rfl

theorem insertRunnableBinderRecvEvent_of_some {row stateRow : Nat} (rows :
      filter.receivedRows transactionId iTid = some (row, stateRow)) :
    (filter.insertRunnableBinderRecvEvent transactionId iTid).slices =
      { filter.slices with
        rows :=
          SchedSlices.updateEndState filter.slices.rows row
            taskRunnableBinder } := by
  rcases receivedRows_info rows with ⟨info, found, _⟩
  simp [CpuFilter.insertRunnableBinderRecvEvent, rows, found]

theorem info_insertRunnableBinderRecvEvent {id : UInt32}
    {info : BinderTransactionInfo} (found : (filter.insertRunnableBinderRecvEvent transactionId
      iTid).transactions.transactionIdToInfo id = some info) :
    filter.transactions.transactionIdToInfo id = some info := by
  unfold CpuFilter.insertRunnableBinderRecvEvent at found
  split at found
  · exact found
  · have cleared := BinderTransactions.info_transactionClear found
    split at cleared <;> exact cleared

theorem FollowsTimeline.receive (follows : FollowsTimeline enabled past filter)
    (reached : runPartial CpuFilter.step (.initial enabled) past = some filter) :
    FollowsTimeline enabled (past ++ [.insertRunnableBinderRecvEvent transactionId iTid])
      (filter.insertRunnableBinderRecvEvent transactionId iTid) := by
  have sameSwitches : ∀ cpu, switchesOf cpu
    (past ++ [.insertRunnableBinderRecvEvent transactionId iTid]) = switchesOf cpu past := by
    intro cpu
    simp [switchesOf]
  have received := received_concat_recv transactionId iTid reached
  cases rows : filter.receivedRows transactionId iTid with
  | none =>
    have sameSlices := insertRunnableBinderRecvEvent_of_none rows
    have sameReceived : Received enabled
      (past ++ [.insertRunnableBinderRecvEvent transactionId iTid]) = Received enabled past := by
      ext row
      simp [received, rows]
    refine ⟨?_, ?_, ?_, ?_⟩
    · intro cpu
      rw [sameReceived, sameSlices, sameSwitches]
      exact follows.shows cpu
    · rw [sameSlices]
      exact follows.remembers
    · intro id info row found hasRow
      rw [sameSlices]
      exact follows.waiting id info row (info_insertRunnableBinderRecvEvent found) hasRow
    · rw [sameReceived, sameSlices]
      exact follows.received
  | some pair =>
    rcases pair with ⟨changed, stateRow⟩
    have slices := insertRunnableBinderRecvEvent_of_some rows
    rcases receivedRows_info rows with ⟨info, found, hasRow⟩
    have settled := follows.waiting transactionId info changed found hasRow
    have newReceived : Received enabled
        (past ++ [.insertRunnableBinderRecvEvent transactionId iTid]) =
          fun row => Received enabled past row ∨ row = changed := by
      ext row
      simp [received, rows, eq_comm]
    refine ⟨?_, ?_, ?_, ?_⟩
    · intro cpu
      rw [newReceived, slices, sameSwitches, sliceRowsOf_updateEndState, forall₂_map_left_iff]
      exact (follows.shows cpu).imp fun _ _ shown => shown.receive changed
    · rw [slices]
      exact follows.remembers.updateEndState changed
    · intro id info row found hasRow
      rw [slices]
      exact (follows.waiting id info row
        (info_insertRunnableBinderRecvEvent found) hasRow).updateEndState changed
    · rw [newReceived, slices]
      rintro row (isReceived | rfl)
      · exact (follows.received row isReceived).updateEndState changed
      · exact settled.updateEndState row

theorem FollowsTimeline.step {call : CpuCall}
    (follows : FollowsTimeline enabled past filter) (reached :
      runPartial CpuFilter.step (.initial enabled) past = some filter)
    (notClear : call ≠ .clear) (stepped : filter.step call = some next) :
    FollowsTimeline enabled (past ++ [call]) next := by
  cases call with
  | insertSwitchEvent event => exact follows.switch reached stepped
  | insertRunnableBinderRecvEvent transactionId iTid =>
    cases stepped
    exact follows.receive reached
  | clear => exact absurd rfl notClear
  | insertRunnableBinderEvent transactionId iTid =>
    cases stepped
    refine follows.of_same_slices reached (by simp) (by simp) rfl ?_
    intro id info row found hasRow
    by_cases same : id = transactionId
    · simp only [BinderTransactions.insertRunnableBinderEvent, same,
        Function.update_self, some.injEq] at found
      subst found
      simp at hasRow
    · simpa [BinderTransactions.insertRunnableBinderEvent, same] using found
  | insertBlockedReasonEvent iTid iowait =>
    cases stepped
    exact follows.of_same_slices reached (by simp) (by simp) rfl fun _ _ _ found _ => found
  | insertWakeupEvent ts internalTid isWaking =>
    cases stepped
    exact follows.of_same_slices reached (by simp) (by simp) rfl fun _ _ _ found _ => found
  | insertProcessExitEvent ts pid =>
    cases stepped
    exact follows.of_same_slices reached (by simp) (by simp) rfl fun _ _ _ found _ => found
  | insertProcessFreeEvent ts pid =>
    cases stepped
    exact follows.of_same_slices reached (by simp) (by simp) rfl fun _ _ _ found _ => found
  | finish =>
    cases stepped
    exact follows.of_same_slices reached (by simp) (by simp) rfl fun _ _ _ found _ => found

/--
In every run without `Clear`, the rows of each CPU tile its time: each is closed
by the following switch on the CPU, the last is open, and the thread and the
end state are those of the switches.
-/
theorem cpu_timelines_tile (enabled : Bool) (calls : List CpuCall) (filter : CpuFilter)
    (notCleared : ∀ call ∈ calls, call ≠ .clear) (reached :
      runPartial CpuFilter.step (.initial enabled) calls = some filter) (cpu : UInt32) :
    TilesCpu (Received enabled calls) (sliceRowsOf cpu filter.slices.rows)
      (switchesOf cpu calls) := by
  have follows : (∀ call ∈ calls, call ≠ CpuCall.clear) → FollowsTimeline enabled calls filter := by
    refine runPartial_history (fun past state =>
      (∀ call ∈ past, call ≠ CpuCall.clear) → FollowsTimeline enabled past state)
      (fun _ => followsTimeline_initial enabled) ?_ reached
    intro past call state next atPast induction stepped noClear
    have before := induction fun earlier member => noClear earlier (mem_append_left _ member)
    exact before.step atPast (noClear call (by simp)) stepped
  exact tilesCpu_of_shows ((follows notCleared).shows cpu)

theorem cpu_timelines_tile_twoSwitches :
    ∃ filter, runPartial CpuFilter.step (.initial false) [.insertSwitchEvent ⟨1, 0, 0, 0, 7, 120⟩,
      .insertWakeupEvent 2 9 false, .insertSwitchEvent ⟨5, 0, 7, 1, 9, 120⟩] = some filter ∧
      TilesCpu (Received false [.insertSwitchEvent ⟨1, 0, 0, 0, 7, 120⟩,
        .insertWakeupEvent 2 9 false, .insertSwitchEvent ⟨5, 0, 7, 1, 9, 120⟩])
        (sliceRowsOf 0 filter.slices.rows) [⟨1, 0, 0, 0, 7, 120⟩, ⟨5, 0, 7, 1, 9, 120⟩] :=
  ⟨_, rfl, cpu_timelines_tile false _ _ (by decide) rfl 0⟩

/-- `Clear` forgets the last row of the CPU, which then is never closed. -/
theorem not_tilesCpu_clearedBetween : ∃ filter, runPartial CpuFilter.step (.initial false)
    [.insertSwitchEvent ⟨1, 0, 0, 0, 7, 120⟩, .clear,
      .insertSwitchEvent ⟨5, 0, 7, 1, 9, 120⟩] = some filter ∧
    ¬ TilesCpu (Received false [.insertSwitchEvent ⟨1, 0, 0, 0, 7, 120⟩, .clear,
      .insertSwitchEvent ⟨5, 0, 7, 1, 9, 120⟩]) (sliceRowsOf 0 filter.slices.rows)
      [⟨1, 0, 0, 0, 7, 120⟩, ⟨5, 0, 7, 1, 9, 120⟩] := by
  refine ⟨_, rfl, ?_⟩
  intro tiles
  exact absurd (tiles.meets 0 _ _ rfl rfl) (by decide)

end SysAnalyzer.Filter
