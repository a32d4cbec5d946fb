import SysAnalyzer.Filter.TaskPoolFilter

/-!
# Task pool events commute

A call of the filter reads a task, a thread and one of the three events, and
writes the columns of this event into the row of the task; where there is no row
yet, into a row of invalid columns behind the others.  So the table is the
`group` of the calls by their tasks, and the map leads from every task to the
place of its group.  The three events of a task write different columns, so its
row does not depend on their order, and the order of the tasks only decides the
order of the rows.

Every event belongs to a slice of its own, and slices are numbered with 32 bits,
so a row is never numbered with the value that stands for a missing one.
-/

namespace SysAnalyzer.Filter

open Foundation List
open Base
open SysAnalyzer.Parser (strToInt)

inductive TaskPoolEvent where
  | assign (priority executeState : UInt32)
  | execute
  | returned (returnState : UInt32)
  deriving DecidableEq, Inhabited

/-- A slice that is looked at, with the threads and processes of the moment. -/
structure TaskPoolCall where
  traceDataCache : TraceDataCache
  taskPoolStr : List Char
  index : UInt32

/-- What the filter reads of a call: the task, the thread and the event. -/
structure TaskPoolReading where
  ipid : UInt32
  executeId : UInt32
  itid : UInt32
  event : TaskPoolEvent
  deriving DecidableEq, Inhabited

namespace TaskPoolRow

def blank (executeId : UInt32) : TaskPoolRow where
  allocationTaskRow := invalidInt32
  executeTaskRow := invalidInt32
  returnTaskRow := invalidInt32
  allocationItid := invalidInt32
  executeItid := invalidInt32
  returnItid := invalidInt32
  executeId := executeId
  priority := invalidInt32
  executeState := invalidInt32
  returnState := invalidInt32
  timeoutRow := invalidInt32

def write (event : TaskPoolEvent) (index itid : UInt32) (row : TaskPoolRow) : TaskPoolRow :=
  match event with
  | .assign priority executeState =>
    { row with
      allocationTaskRow := index
      allocationItid := itid
      priority
      executeState }
  | .execute => { row with executeTaskRow := index, executeItid := itid }
  | .returned returnState => { row with returnTaskRow := index, returnItid := itid, returnState }

end TaskPoolRow

namespace TaskPoolCall

def readEvent (taskPoolStr : List Char) : Option (UInt32 × TaskPoolEvent) :=
  if TaskPoolFilter.startWith taskPoolStr TaskPoolFilter.targetStr then
    if TaskPoolFilter.startWith taskPoolStr TaskPoolFilter.allocationStr then do
      let args := TaskPoolFilter.argsBehind taskPoolStr TaskPoolFilter.allocationStr
      let executeId ← (args " executeId ").bind strToInt
      let priority ← (args " priority ").bind strToInt
      let executeState ← (args " executeState ").bind strToInt
      some (executeId, .assign priority executeState)
    else if TaskPoolFilter.startWith taskPoolStr TaskPoolFilter.executeStr then do
      let args := TaskPoolFilter.argsBehind taskPoolStr TaskPoolFilter.executeStr
      let executeId ← (args " executeId ").bind strToInt
      some (executeId, .execute)
    else if TaskPoolFilter.startWith taskPoolStr TaskPoolFilter.returnStr then do
      let args := TaskPoolFilter.argsBehind taskPoolStr TaskPoolFilter.returnStr
      let executeId ← (args " executeId ").bind strToInt
      let performResult ← args " performResult "
      some (executeId, .returned (if performResult ≠ " Successful" then 0 else 1))
    else none
  else none

def reading (call : TaskPoolCall) : Option TaskPoolReading := do
  let (executeId, event) ← readEvent call.taskPoolStr
  let itid ← call.traceDataCache.callIds[call.index.toNat]?
  some
    { ipid := TaskPoolFilter.getIpId call.traceDataCache call.index
      executeId
      itid
      event }

def key (call : TaskPoolCall) : UInt32 × UInt32 :=
  let reading := call.reading.getD default
  (reading.ipid, reading.executeId)

def change (call : TaskPoolCall) (row : Option TaskPoolRow) : TaskPoolRow :=
  let reading := call.reading.getD default
  (row.getD (.blank reading.executeId)).write reading.event call.index reading.itid

end TaskPoolCall

namespace TaskPoolFilter

/-- A call of `TaskPoolEvent`. -/
def step (filter : TaskPoolFilter) (call : TaskPoolCall) : Option TaskPoolFilter :=
  (filter.taskPoolEvent call.traceDataCache call.taskPoolStr call.index).map Prod.fst

/-- What an event writes: the row of its task, a new one where there is none. -/
theorem step_of_reading (filter : TaskPoolFilter) {call : TaskPoolCall} {reading : TaskPoolReading}
    (reads : call.reading = some reading) :
    let found := filter.ipidExecuteMap.find reading.ipid reading.executeId
    let write := TaskPoolRow.write reading.event call.index reading.itid
    ∃ next, filter.step call = some next ∧ next.taskPoolData = (if found = invalidInt32 then
      filter.taskPoolData ++ [write (.blank reading.executeId)]
      else filter.taskPoolData.updateRow found write) ∧
      next.ipidExecuteMap = if found = invalidInt32 then
        filter.ipidExecuteMap.insert reading.ipid reading.executeId
          (UInt32.ofNat filter.taskPoolData.length) else filter.ipidExecuteMap := by
  unfold TaskPoolCall.reading at reads
  simp only [Option.bind_eq_bind, Option.bind_eq_some_iff, Prod.exists, Option.some.injEq] at reads
  rcases reads with ⟨executeId, event, ofText, itid, ofSlice, rfl⟩
  dsimp only
  unfold TaskPoolCall.readEvent at ofText
  by_cases isTask : startWith call.taskPoolStr targetStr = true
  swap
  · simp [isTask] at ofText
  by_cases isAllocation : startWith call.taskPoolStr allocationStr = true
  · simp only [isTask, isAllocation, if_true, Option.bind_eq_bind,
      Option.bind_eq_some_iff, Option.some.injEq, Prod.mk.injEq] at ofText
    rcases ofText with
      ⟨taskId, ⟨idText, idArg, idValue⟩, priority, ⟨priorityText, priorityArg,
        priorityValue⟩, state, ⟨stateText, stateArg, stateValue⟩, rfl, rfl⟩
    simp only [step, taskPoolEvent, isTask, isAllocation, Bool.and_self,
      if_true, updateAssignData, ofSlice, idArg, idValue, priorityArg,
      priorityValue, stateArg, stateValue,
      Option.bind_eq_bind, Option.bind_some]
    by_cases absent : filter.checkTheSameTask call.traceDataCache taskId call.index = invalidInt32
    · have noRow : filter.ipidExecuteMap.find (getIpId call.traceDataCache call.index)
        taskId = invalidInt32 :=
        absent
      simp only [if_pos absent, if_pos noRow]
      refine ⟨_, rfl, ?_⟩
      exact ⟨rfl, rfl⟩
    · have hasRow : filter.ipidExecuteMap.find (getIpId call.traceDataCache call.index)
        taskId ≠ invalidInt32 :=
        absent
      simp only [if_neg absent, if_neg hasRow]
      refine ⟨_, rfl, ?_⟩
      exact ⟨rfl, rfl⟩
  by_cases isExecute : startWith call.taskPoolStr executeStr = true
  · simp only [isTask, isAllocation, isExecute, if_true, if_false,
      Bool.false_eq_true, Option.bind_eq_bind, Option.bind_eq_some_iff,
      Option.some.injEq, Prod.mk.injEq] at ofText
    rcases ofText with ⟨taskId, ⟨idText, idArg, idValue⟩, rfl, rfl⟩
    simp only [step, taskPoolEvent, isTask, isAllocation, isExecute,
      Bool.and_self, Bool.and_false, if_true, if_false, Bool.false_eq_true,
      updateExecuteData, ofSlice, idArg, idValue,
      Option.bind_eq_bind, Option.bind_some]
    by_cases absent : filter.checkTheSameTask call.traceDataCache taskId call.index = invalidInt32
    · have noRow : filter.ipidExecuteMap.find (getIpId call.traceDataCache call.index)
        taskId = invalidInt32 :=
        absent
      simp only [if_pos absent, if_pos noRow]
      refine ⟨_, rfl, ?_⟩
      exact ⟨rfl, rfl⟩
    · have hasRow : filter.ipidExecuteMap.find (getIpId call.traceDataCache call.index)
        taskId ≠ invalidInt32 :=
        absent
      simp only [if_neg absent, if_neg hasRow]
      refine ⟨_, rfl, ?_⟩
      exact ⟨rfl, rfl⟩
  by_cases isReturn : startWith call.taskPoolStr returnStr = true
  · simp only [isTask, isAllocation, isExecute, isReturn, if_true, if_false,
      Bool.false_eq_true, Option.bind_eq_bind, Option.bind_eq_some_iff,
      Option.some.injEq, Prod.mk.injEq] at ofText
    rcases ofText with
      ⟨taskId, ⟨idText, idArg, idValue⟩, performResult, resultArg, rfl, rfl⟩
    simp only [step, taskPoolEvent, isTask, isAllocation, isExecute, isReturn,
      Bool.and_self, Bool.and_false, if_true, if_false, Bool.false_eq_true,
      updateReturnData, ofSlice, idArg, idValue, resultArg,
      Option.bind_eq_bind, Option.bind_some]
    by_cases absent : filter.checkTheSameTask call.traceDataCache taskId call.index = invalidInt32
    · have noRow : filter.ipidExecuteMap.find (getIpId call.traceDataCache call.index)
        taskId = invalidInt32 :=
        absent
      simp only [if_pos absent, if_pos noRow]
      refine ⟨_, rfl, ?_⟩
      exact ⟨rfl, rfl⟩
    · have hasRow : filter.ipidExecuteMap.find (getIpId call.traceDataCache call.index)
        taskId ≠ invalidInt32 :=
        absent
      simp only [if_neg absent, if_neg hasRow]
      refine ⟨_, rfl, ?_⟩
      exact ⟨rfl, rfl⟩
  · simp [isTask, isAllocation, isExecute, isReturn] at ofText

def rowsOf (calls : List TaskPoolCall) : List ((UInt32 × UInt32) × TaskPoolRow) :=
  group TaskPoolCall.key TaskPoolCall.change calls

/--
The rows are those that the calls make of their tasks, and the map leads to
their places.
-/
structure Tables (calls : List TaskPoolCall) (filter : TaskPoolFilter) :
    Prop where
  rows : filter.taskPoolData = (rowsOf calls).map Prod.snd
  places : ∀ ipid executeId, filter.ipidExecuteMap.find ipid executeId =
    ((((rowsOf calls).map Prod.fst).idxOf? (ipid, executeId)).map
      UInt32.ofNat).getD invalidInt32

theorem tables_initial : Tables [] initial where
  rows := rfl
  places := fun _ _ => rfl

theorem toNat_ofNat_of_lt {number : Nat} (small : number < 2 ^ 31 - 1) :
    (UInt32.ofNat number).toNat = number := by
  rw [UInt32.toNat_ofNat']
  omega

theorem ofNat_ne_invalidInt32 {number : Nat} (small : number < 2 ^ 31 - 1) :
    UInt32.ofNat number ≠ invalidInt32 := by
  intro same
  have numbers := congrArg UInt32.toNat same
  rw [toNat_ofNat_of_lt small] at numbers
  have value : invalidInt32.toNat = 2 ^ 31 - 1 := by decide
  omega

theorem Tables.step {calls : List TaskPoolCall} {filter : TaskPoolFilter}
    (tables : Tables calls filter) {call : TaskPoolCall} {reading : TaskPoolReading}
    (reads : call.reading = some reading) (room : (rowsOf calls).length < 2 ^ 31 - 1) :
    ∃ next, filter.step call = some next ∧ Tables (calls ++ [call]) next := by
  have ofCall : call.key = (reading.ipid, reading.executeId) := by simp [TaskPoolCall.key, reads]
  have change : call.change = fun row =>
    (row.getD (.blank reading.executeId)).write reading.event call.index reading.itid := by
    funext row
    simp [TaskPoolCall.change, reads]
  have grouped : rowsOf (calls ++ [call]) = upsert call.key call.change (rowsOf calls) :=
    group_concat _ _ calls call
  rcases step_of_reading filter reads with
    ⟨next, stepped, rows, places⟩
  refine ⟨next, stepped, ?_⟩
  have found := tables.places reading.ipid reading.executeId
  rw [← ofCall] at found
  by_cases known : call.key ∈ (rowsOf calls).map Prod.fst
  · cases place : ((rowsOf calls).map Prod.fst).idxOf? call.key with
    | none => exact absurd known (List.idxOf?_eq_none_iff.1 place)
    | some number =>
      have inRange : number < (rowsOf calls).length := by
        rcases List.findIdx?_eq_some_iff_getElem.1 place with ⟨bound, _⟩
        simpa using bound
      have small : number < 2 ^ 31 - 1 := by omega
      rw [place, Option.map_some, Option.getD_some] at found
      have present : filter.ipidExecuteMap.find reading.ipid reading.executeId ≠ invalidInt32 := by
        rw [found]
        exact ofNat_ne_invalidInt32 small
      rw [if_neg present] at rows places
      refine ⟨?_, ?_⟩
      · rw [rows, grouped, values_upsert_of_idxOf? call.change place, found, tables.rows, change]
        unfold TaskPoolInfo.updateRow
        rw [toNat_ofNat_of_lt small, if_pos (by simpa using inRange.le)]
        rfl
      · intro ipid executeId
        rw [places, tables.places, grouped, keys_upsert, if_pos known]
  · have place : ((rowsOf calls).map Prod.fst).idxOf? call.key = none :=
      List.idxOf?_eq_none_iff.2 known
    rw [place] at found
    have absent : filter.ipidExecuteMap.find reading.ipid reading.executeId = invalidInt32 := found
    rw [if_pos absent] at rows places
    refine ⟨?_, ?_⟩
    · rw [rows, grouped, upsert_of_not_mem call.change known, tables.rows, map_append, change]
      rfl
    · intro ipid executeId
      rw [places, DoubleMap.find_insert, grouped, keys_upsert, if_neg known,
        idxOf?_concat known, tables.places, tables.rows, length_map,
        length_map, ofCall]
      by_cases same : ipid = reading.ipid ∧ executeId = reading.executeId
      · rw [if_pos same, if_pos (by rw [same.1, same.2])]
        rfl
      · rw [if_neg same, if_neg]
        rwa [Prod.mk.injEq]

theorem rowsOf_length_le {calls : List TaskPoolCall} {keys : List (UInt32 × UInt32)}
    (ofKeys : ∀ call ∈ calls, call.key ∈ keys) : (rowsOf calls).length ≤ keys.length := by
  have subset : (rowsOf calls).map Prod.fst ⊆ keys := by
    intro key member
    rcases (mem_keys_group _ _ calls key).1 member with ⟨call, ofCalls, rfl⟩
    exact ofKeys call ofCalls
  have fits :=
    (subperm_of_subset (nodup_keys_group TaskPoolCall.key TaskPoolCall.change calls)
      subset).length_le
  rwa [length_map] at fits

theorem exists_tables {calls : List TaskPoolCall} {keys : List (UInt32 × UInt32)}
    (reads : ∀ call ∈ calls, call.reading.isSome = true) (ofKeys : ∀ call ∈ calls, call.key ∈ keys)
    (room : keys.length < 2 ^ 31 - 1) :
    ∃ filter, runPartial step initial calls = some filter ∧ Tables calls filter := by
  induction calls using List.reverseRecOn with
  | nil => exact ⟨initial, rfl, tables_initial⟩
  | append_singleton calls call induction =>
    rcases induction (fun other member => reads other (mem_append_left _ member))
      (fun other member => ofKeys other (mem_append_left _ member))
      with ⟨filter, reached, tables⟩
    have within :=
      rowsOf_length_le fun other member => ofKeys other (mem_append_left [call] member)
    rcases Option.isSome_iff_exists.1 (reads call (by simp)) with
      ⟨reading, ofCall⟩
    rcases tables.step ofCall (by omega) with ⟨next, stepped, nextTables⟩
    refine ⟨next, ?_, nextTables⟩
    rw [runPartial_append, reached]
    simp [runPartial, stepped]

end TaskPoolFilter

/-! ## The three events of a task -/

/-- A task with its three events and what they say. -/
structure TaskPoolTask where
  ipid : UInt32
  executeId : UInt32
  assign : TaskPoolCall
  allocationItid : UInt32
  priority : UInt32
  executeState : UInt32
  execute : TaskPoolCall
  executeItid : UInt32
  returned : TaskPoolCall
  returnItid : UInt32
  returnState : UInt32

namespace TaskPoolTask

def key (task : TaskPoolTask) : UInt32 × UInt32 := (task.ipid, task.executeId)

def calls (task : TaskPoolTask) : List TaskPoolCall := [task.assign, task.execute, task.returned]

/-- The events are read as the allocation, the execution and the return of the task. -/
structure WellFormed (task : TaskPoolTask) : Prop where
  assign : task.assign.reading = some ⟨task.ipid, task.executeId, task.allocationItid,
    .assign task.priority task.executeState⟩
  execute : task.execute.reading = some ⟨task.ipid, task.executeId, task.executeItid, .execute⟩
  returned : task.returned.reading = some
    ⟨task.ipid, task.executeId, task.returnItid, .returned task.returnState⟩

def row (task : TaskPoolTask) : TaskPoolRow where
  allocationTaskRow := task.assign.index
  executeTaskRow := task.execute.index
  returnTaskRow := task.returned.index
  allocationItid := task.allocationItid
  executeItid := task.executeItid
  returnItid := task.returnItid
  executeId := task.executeId
  priority := task.priority
  executeState := task.executeState
  returnState := task.returnState
  timeoutRow := invalidInt32

variable {task : TaskPoolTask}

section

variable (wellFormed : task.WellFormed)
include wellFormed

theorem WellFormed.reading_of_mem {call : TaskPoolCall} (member : call ∈ task.calls) :
    ∃ itid event, call.reading = some ⟨task.ipid, task.executeId, itid, event⟩ := by
  simp only [calls, mem_cons, not_mem_nil, or_false] at member
  rcases member with rfl | rfl | rfl
  · exact ⟨_, _, wellFormed.assign⟩
  · exact ⟨_, _, wellFormed.execute⟩
  · exact ⟨_, _, wellFormed.returned⟩

theorem WellFormed.key_of_mem {call : TaskPoolCall} (member : call ∈ task.calls) :
    call.key = task.key := by
  rcases wellFormed.reading_of_mem member with ⟨itid, event, reads⟩
  simp [TaskPoolCall.key, reads, key]

theorem gather_change {first : TaskPoolCall} {rest : List TaskPoolCall}
    (ofTask : ∀ call ∈ first :: rest, call ∈ task.calls) :
    gather TaskPoolCall.change (first :: rest) = some
      ((first :: rest).foldl (fun row call => call.change (some row))
        (.blank task.executeId)) := by
  have onRow : ∀ (calls : List TaskPoolCall) (row : TaskPoolRow),
    calls.foldl (fun value call => some (call.change value)) (some row) =
      some (calls.foldl (fun row call => call.change (some row)) row) := by
    intro calls
    induction calls with
    | nil => exact fun _ => rfl
    | cons call calls induction => exact fun row => induction _
  have start : first.change none = first.change (some (.blank task.executeId)) := by
    rcases wellFormed.reading_of_mem (ofTask first (by simp)) with
      ⟨itid, event, reads⟩
    simp [TaskPoolCall.change, reads]
  rw [gather, foldl_cons, foldl_cons, onRow, start]

theorem gather_of_perm {calls : List TaskPoolCall} (perm : calls.Perm task.calls) :
    gather TaskPoolCall.change calls = some task.row := by
  cases calls with
  | nil => exact absurd perm.length_eq (by simp [TaskPoolTask.calls])
  | cons first rest =>
    rw [gather_change wellFormed fun call member => perm.mem_iff.1 member]
    have commute : ∀ left ∈ first :: rest, ∀ right ∈ first :: rest, ∀ row,
      TaskPoolCall.change right (some (left.change (some row))) =
        left.change (some (right.change (some row))) := by
      intro left ofLeft right ofRight row
      have inLeft := perm.mem_iff.1 ofLeft
      have inRight := perm.mem_iff.1 ofRight
      simp only [TaskPoolTask.calls, mem_cons, not_mem_nil, or_false] at inLeft inRight
      rcases inLeft with rfl | rfl | rfl <;> rcases inRight with rfl | rfl | rfl <;>
        simp [TaskPoolCall.change, TaskPoolRow.write, wellFormed.assign,
          wellFormed.execute, wellFormed.returned]
    rw [perm.foldl_eq' commute]
    simp [TaskPoolTask.calls, TaskPoolCall.change, TaskPoolRow.write,
      TaskPoolRow.blank, row, wellFormed.assign, wellFormed.execute,
      wellFormed.returned]

end

variable {tasks : List TaskPoolTask}

theorem filter_calls (wellFormed : ∀ task ∈ tasks, task.WellFormed)
    (distinct : (tasks.map key).Nodup) (member : task ∈ tasks) :
    (tasks.flatMap calls).filter (fun call => decide (call.key = task.key)) = task.calls := by
  have ofOne : ∀ other ∈ tasks, other.calls.filter (fun call => decide (call.key = task.key)) =
    if other.key = task.key then other.calls else [] := by
    intro other ofTasks
    split
    · next same =>
        rw [filter_eq_self]
        intro call ofCalls
        rw [decide_eq_true_eq, (wellFormed other ofTasks).key_of_mem ofCalls, same]
    · next different =>
        rw [filter_eq_nil_iff]
        intro call ofCalls same
        rw [decide_eq_true_eq, (wellFormed other ofTasks).key_of_mem ofCalls] at same
        exact different same
  clear wellFormed
  induction tasks with
  | nil => exact absurd member not_mem_nil
  | cons head rest induction =>
    rw [map_cons, nodup_cons] at distinct
    rw [flatMap_cons, filter_append, ofOne head (by simp)]
    rcases List.mem_cons.1 member with rfl | inRest
    · have noneElse : (rest.flatMap calls).filter
        (fun call => decide (call.key = task.key)) = [] := by
        rw [filter_flatMap, flatMap_eq_nil_iff]
        intro other ofRest
        rw [ofOne other (mem_cons_of_mem _ ofRest), if_neg]
        intro same
        exact distinct.1 (same ▸ mem_map_of_mem ofRest)
      rw [if_pos rfl, noneElse, append_nil]
    · have different : head.key ≠ task.key := by
        intro same
        exact distinct.1 (same ▸ mem_map_of_mem inRest)
      rw [if_neg different, nil_append]
      exact induction distinct.2 inRest fun other ofRest => ofOne other (mem_cons_of_mem _ ofRest)

theorem rowsOf_perm (wellFormed : ∀ task ∈ tasks, task.WellFormed)
    (distinct : (tasks.map key).Nodup) {interleaving : List TaskPoolCall}
    (perm : interleaving.Perm (tasks.flatMap calls)) :
    (TaskPoolFilter.rowsOf interleaving).Perm (tasks.map fun task => (task.key, task.row)) := by
  have gathered : ∀ task ∈ tasks, gather TaskPoolCall.change
    (interleaving.filter fun call => decide (call.key = task.key)) = some task.row := by
    intro task member
    refine gather_of_perm (wellFormed task member) ?_
    rw [← filter_calls wellFormed distinct member]
    exact perm.filter _
  refine (perm_ext_iff_of_nodup ?_ ?_).2 ?_
  · exact List.Nodup.of_map Prod.fst
      (nodup_keys_group TaskPoolCall.key TaskPoolCall.change interleaving)
  · refine List.Nodup.of_map Prod.fst ?_
    simpa [map_map, Function.comp_def] using distinct
  · rintro ⟨wanted, row⟩
    unfold TaskPoolFilter.rowsOf
    rw [mem_group_iff, mem_map]
    constructor
    · intro isRow
      rcases exists_head_of_gather _ _ isRow with
        ⟨first, rest, _, ofFirst, rfl⟩
      rcases List.mem_flatMap.1 (perm.mem_iff.1 ofFirst) with
        ⟨task, member, ofTask⟩
      have sameKey := (wellFormed task member).key_of_mem ofTask
      rw [sameKey, gathered task member, Option.some.injEq] at isRow
      exact ⟨task, member, by rw [sameKey, isRow]⟩
    · rintro ⟨task, member, same⟩
      rw [Prod.mk.injEq] at same
      rw [← same.1, ← same.2]
      exact gathered task member

theorem length_lt_of_slices (slices : ((tasks.flatMap calls).map TaskPoolCall.index).Nodup) :
    tasks.length < 2 ^ 31 - 1 := by
  have events : (tasks.flatMap calls).length = tasks.length * 3 := by
    rw [length_flatMap, map_congr_left (g := fun _ => 3)]
    · simp
    · exact fun _ _ => rfl
  have numbers : (((tasks.flatMap calls).map TaskPoolCall.index).map UInt32.toNat).Nodup :=
    slices.map fun _ _ => UInt32.toNat_inj.1
  have fits : (((tasks.flatMap calls).map TaskPoolCall.index).map
    UInt32.toNat) ⊆ List.range (2 ^ 32) := by
    intro number member
    rcases List.mem_map.1 member with ⟨index, _, rfl⟩
    exact List.mem_range.2 index.toNat_lt
  have bounded := (subperm_of_subset numbers fits).length_le
  rw [length_map, length_map, length_range, events] at bounded
  omega

theorem exists_run (wellFormed : ∀ task ∈ tasks, task.WellFormed) (distinct : (tasks.map key).Nodup)
    (slices : ((tasks.flatMap calls).map TaskPoolCall.index).Nodup)
    {interleaving : List TaskPoolCall} (perm : interleaving.Perm (tasks.flatMap calls)) :
    ∃ filter, runPartial TaskPoolFilter.step .initial interleaving = some filter ∧
      filter.taskPoolData.Perm (tasks.map row) := by
  have ofTask : ∀ call ∈ interleaving, ∃ task ∈ tasks, call ∈ task.calls :=
    fun call member => List.mem_flatMap.1 (perm.mem_iff.1 member)
  have reads : ∀ call ∈ interleaving, call.reading.isSome = true := by
    intro call member
    rcases ofTask call member with ⟨task, ofTasks, ofCalls⟩
    rcases (wellFormed task ofTasks).reading_of_mem ofCalls with
      ⟨itid, event, isRead⟩
    rw [isRead]
    rfl
  have ofKeys : ∀ call ∈ interleaving, call.key ∈ tasks.map key := by
    intro call member
    rcases ofTask call member with ⟨task, ofTasks, ofCalls⟩
    rw [(wellFormed task ofTasks).key_of_mem ofCalls]
    exact mem_map_of_mem ofTasks
  have room : (tasks.map key).length < 2 ^ 31 - 1 := by
    rw [length_map]
    exact length_lt_of_slices slices
  rcases TaskPoolFilter.exists_tables reads ofKeys room with
    ⟨filter, reached, tables⟩
  refine ⟨filter, reached, ?_⟩
  have sameRows := (rowsOf_perm wellFormed distinct perm).map Prod.snd
  rw [tables.rows]
  simpa [map_map, Function.comp_def] using sameRows

/--
Whatever the order of the events, every task ends with exactly one row, whose
columns are those of its allocation, its execution and its return; so two
interleavings give the same table up to the order of its rows.  Every event
belongs to a slice of its own.
-/
theorem taskPoolEvents_commute {tasks : List TaskPoolTask}
    (wellFormed : ∀ task ∈ tasks, task.WellFormed) (distinct : (tasks.map key).Nodup)
    (slices : ((tasks.flatMap calls).map TaskPoolCall.index).Nodup)
    {interleaving other : List TaskPoolCall} (perm : interleaving.Perm (tasks.flatMap calls))
    (otherPerm : other.Perm (tasks.flatMap calls)) :
    ∃ filter otherFilter, runPartial TaskPoolFilter.step .initial interleaving = some filter ∧
      runPartial TaskPoolFilter.step .initial other = some otherFilter ∧
        filter.taskPoolData.Perm (tasks.map row) ∧
          filter.taskPoolData.Perm otherFilter.taskPoolData := by
  rcases exists_run wellFormed distinct slices perm with
    ⟨filter, reached, rows⟩
  rcases exists_run wellFormed distinct slices otherPerm with
    ⟨otherFilter, otherReached, otherRows⟩
  exact ⟨filter, otherFilter, reached, otherReached, rows, rows.trans otherRows.symm⟩

/-- A task whose three events are in slices from the given row on. -/
def sampleTask (executeId : UInt32) (number : String) (index : UInt32) : TaskPoolTask :=
  let traceDataCache : TraceDataCache := ⟨[1, 1, 2, 1, 1, 2], [0, 7, 7]⟩
  { ipid := 7
    executeId
    assign :=
      ⟨traceDataCache,
        ("H:Task Allocation: taskId : 1, executeId : " ++ number ++
          ", priority : 1, executeState : 1").toList, index⟩
    allocationItid := 1
    priority := 1
    executeState := 1
    execute :=
      ⟨traceDataCache, ("H:Task Perform: taskId : 1, executeId : " ++ number).toList, index + 1⟩
    executeItid := 1
    returned :=
      ⟨traceDataCache,
        ("H:Task PerformTask End: taskId : 1, executeId : " ++ number ++
          ", performResult : Successful").toList, index + 2⟩
    returnItid := 2
    returnState := 1 }

/-- The second task runs after the first one returns and before its other events. -/
theorem taskPoolEvents_commute_twoTasks :
    let first := sampleTask 9 "9" 0
    let second := sampleTask 10 "10" 3
    ∃ filter otherFilter, runPartial TaskPoolFilter.step .initial
            [first.returned, second.assign, second.execute, second.returned,
              first.assign, first.execute] = some filter ∧
        runPartial TaskPoolFilter.step .initial (first.calls ++ second.calls) =
            some otherFilter ∧
          filter.taskPoolData.Perm [first.row, second.row] ∧
            filter.taskPoolData.Perm otherFilter.taskPoolData := by
  intro first second
  have wellFormed : ∀ task ∈ [first, second], task.WellFormed :=
    forall_mem_cons.2 ⟨⟨by decide, by decide, by decide⟩,
      forall_mem_singleton.2 ⟨by decide, by decide, by decide⟩⟩
  exact taskPoolEvents_commute wellFormed (by decide) (by decide)
    (@perm_append_comm _ [first.returned, second.assign, second.execute, second.returned] _)
    (.refl _)

end TaskPoolTask

end SysAnalyzer.Filter
