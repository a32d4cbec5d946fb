import SysAnalyzer.Table.FilterLoop
import SysAnalyzer.Table.IndexMapMerge

/-!
# The thread_state table

`Cursor::Filter` of `thread_state` runs the constraints through the filters of
the index map and, when one of them has run, merges the map into itself.  The
cursor must not visit a row twice: an aggregate over the table would count it
twice without any error.

A row is visited twice exactly when some step relists it: after
`ts IS NOT NULL` the data flag is still unset, and the next whole-column filter
appends its rows to the list.
-/

namespace SysAnalyzer.Table

open Foundation Option List

/-- The columns of `thread_state`. -/
inductive ThreadStateIndex where
  | id
  | type
  | ts
  | dur
  | cpu
  | internalTid
  | tid
  | pid
  | state
  | argSetId

/--
The columns `Cursor::Filter` reads, and the cache's numbering of the state
names.
-/
structure ThreadState where
  rowCount : Nat
  timeStamps : List (Fin (2 ^ 64))
  durations : List (Fin (2 ^ 64))
  itids : List (Fin (2 ^ 32))
  tids : List (Fin (2 ^ 32))
  pids : List (Fin (2 ^ 32))
  states : List (Fin (2 ^ 64))
  cpus : List (Fin (2 ^ 32))
  argSetIds : List (Fin (2 ^ 32))
  threadStatus2Value : List (String × Fin (2 ^ 64))
  rowCount_lt : rowCount < 2 ^ 31
  timeStamps_size : timeStamps.length = rowCount
  durations_size : durations.length = rowCount
  itids_size : itids.length = rowCount
  tids_size : tids.length = rowCount
  pids_size : pids.length = rowCount
  states_size : states.length = rowCount
  cpus_size : cpus.length = rowCount
  argSetIds_size : argSetIds.length = rowCount

namespace ThreadState

def getThreadStateValue (table : ThreadState) (status : String) : Fin (2 ^ 64) :=
  (table.threadStatus2Value.lookup status).getD ⊤

/-- One `MixRange` call: a column and the operand compared with its cells. -/
structure MixCall where
  width : Nat
  value : Fin (2 ^ width)
  column : List (Fin (2 ^ width))

/--
The call a constraint on one of the plain columns makes.  The state operand is
read as a C string: without a text the call does not return.
-/
def mixCall (table : ThreadState) (bound : Bound ThreadStateIndex) : Option MixCall :=
  let argv := bound.2
  match bound.1.col with
  | .internalTid => some ⟨32, operand32 argv, table.itids⟩
  | .tid => some ⟨32, operand32 argv, table.tids⟩
  | .pid => some ⟨32, operand32 argv, table.pids⟩
  | .dur => some ⟨64, operand64 argv, table.durations⟩
  | .cpu => some ⟨32, operand32 argv, table.cpus⟩
  | .state =>
    argv.text.map fun status => ⟨64, table.getThreadStateValue status, table.states⟩
  | .argSetId => some ⟨32, operand32 argv, table.argSetIds⟩
  | _ => none

/-- One iteration of the constraint loop; `none` when it does not return. -/
def filterStep (table : ThreadState) (map : IndexMap)
    (bound : Bound ThreadStateIndex) : Option IndexMap :=
  let op := bound.1.op
  match bound.1.col with
  | .id => some (map.filterId op bound.2)
  | .ts => some (map.filterTS op bound.2 table.timeStamps)
  | .type => some map
  | _ =>
    (table.mixCall bound).map fun call => map.mixRange op call.value call.column

def sortable : ThreadStateIndex → Bool
  | .id => true
  | .ts => true
  | _ => false

/--
`ThreadStateTable::Cursor::Filter` on the fresh map `xFilter` supplies.  The
fresh map has no data, so the filters work on it and not on a copy.
-/
def filter (table : ThreadState) (constraints : List (Bound ThreadStateIndex))
    (orderBys : List (OrderBy ThreadStateIndex)) : Option IndexMap :=
  let map := ofRange 0 table.rowCount
  if table.rowCount = 0 then some map
  else do
    let map ← runPartial table.filterStep map constraints
    let map ← map.mergeIfData
    return IndexMap.applyOrderBys sortable orderBys map

/-- The rows a step admits when it finds no data. -/
def admitted (table : ThreadState) (bound : Bound ThreadStateIndex) : Option (Int → Bool) :=
  match bound.1.col with
  | .id => none
  | .type => none
  | .ts =>
    if bound.1.op = .isNotNull then some fun row => decide (queueAt table.timeStamps row ≠ ⊤)
    else none
  | _ =>
    (table.mixCall bound).bind fun call =>
      (IndexMap.mixChecks bound.1.op call.value).map fun checks row =>
        checks.2 (queueAt call.column row)

section Step

variable {table : ThreadState}

theorem mixCall_size {bound : Bound ThreadStateIndex} {call : MixCall}
    (called : table.mixCall bound = some call) : (call.column.length : Int) = table.rowCount := by
  unfold mixCall at called
  cases col : bound.1.col <;> rw [col] at called <;>
    simp only [some.injEq, reduceCtorEq, map_eq_some_iff]
      at called
  case internalTid => subst called; exact_mod_cast table.itids_size
  case tid => subst called; exact_mod_cast table.tids_size
  case pid => subst called; exact_mod_cast table.pids_size
  case dur => subst called; exact_mod_cast table.durations_size
  case cpu => subst called; exact_mod_cast table.cpus_size
  case argSetId => subst called; exact_mod_cast table.argSetIds_size
  case state =>
    rcases called with ⟨status, _, rfl⟩
    exact_mod_cast table.states_size

theorem filterStep_cases (table : ThreadState) (map : IndexMap) (bound : Bound ThreadStateIndex) :
    (table.filterStep map bound = some (map.filterId bound.1.op bound.2) ∧
      table.admitted bound = none) ∨
      (table.filterStep map bound = some (map.filterTS bound.1.op bound.2 table.timeStamps) ∧
        table.admitted bound = if bound.1.op = .isNotNull then
          some fun row => decide (queueAt table.timeStamps row ≠ ⊤) else none) ∨
      (table.filterStep map bound = some map ∧ table.admitted bound = none) ∨
      (table.filterStep map bound = (table.mixCall bound).map (fun call =>
        map.mixRange bound.1.op call.value call.column) ∧
        table.admitted bound = (table.mixCall bound).bind fun call =>
          (IndexMap.mixChecks bound.1.op call.value).map fun checks row =>
            checks.2 (queueAt call.column row)) := by
  unfold filterStep admitted
  cases bound.1.col <;> simp

theorem appendSpec (table : ThreadState) :
    IndexMap.AppendSpec (table.rowCount : Int) table.filterStep table.admitted where
  valid := by
    intro map bound next valid stepped
    have times : (table.timeStamps.length : Int) = table.rowCount := by
      exact_mod_cast table.timeStamps_size
    rcases filterStep_cases table map bound with
      ⟨same, _⟩ | ⟨same, _⟩ | ⟨same, _⟩ | ⟨same, _⟩ <;>
      rw [same] at stepped
    · cases stepped
      exact IndexMap.valid_filterId valid _ _
    · cases stepped
      exact IndexMap.valid_filterTS valid times _ _
    · cases stepped
      exact valid
    · rcases map_eq_some_iff.1 stepped with ⟨call, called, rfl⟩
      exact IndexMap.valid_mixRange valid _ _ (mixCall_size called)
  returns := by
    intro bound admits isAdmit map
    rcases filterStep_cases table map bound with
      ⟨same, _⟩ | ⟨same, _⟩ | ⟨same, _⟩ | ⟨same, rows⟩ <;> rw [same]
    · exact ⟨_, rfl⟩
    · exact ⟨_, rfl⟩
    · exact ⟨_, rfl⟩
    · rw [rows] at isAdmit
      rcases bind_eq_some_iff.1 isAdmit with ⟨call, called, _⟩
      exact ⟨_, by rw [called]; rfl⟩
  sublist := by
    intro map bound next valid stepped closed
    have times : (table.timeStamps.length : Int) = table.rowCount := by
      exact_mod_cast table.timeStamps_size
    rcases filterStep_cases table map bound with
      ⟨same, _⟩ | ⟨same, rows⟩ | ⟨same, _⟩ | ⟨same, rows⟩ <;>
      rw [same] at stepped
    · cases stepped
      exact IndexMap.contents_filterId_sublist valid _ _
    · cases stepped
      apply IndexMap.contents_filterTS_sublist valid times
      intro reopened isNotNull
      rw [rows, if_pos isNotNull] at closed
      cases closed reopened
    · cases stepped
      exact List.Sublist.refl _
    · rcases map_eq_some_iff.1 stepped with ⟨call, called, rfl⟩
      apply IndexMap.contents_mixRange_sublist valid _ _ (mixCall_size called)
      intro reopened
      rw [rows, called] at closed
      simpa using closed reopened
  appends := by
    intro map bound next admits valid stepped reopened isAdmit
    have times : (table.timeStamps.length : Int) = table.rowCount := by
      exact_mod_cast table.timeStamps_size
    rcases filterStep_cases table map bound with
      ⟨same, rows⟩ | ⟨same, rows⟩ | ⟨same, rows⟩ | ⟨same, rows⟩ <;>
      rw [same] at stepped <;> rw [rows] at isAdmit
    · cases isAdmit
    · cases stepped
      split_ifs at isAdmit with isNotNull
      cases isAdmit
      rw [isNotNull]
      exact IndexMap.contents_removeNullElements_reopened valid times reopened
    · cases isAdmit
    · rcases map_eq_some_iff.1 stepped with ⟨call, called, rfl⟩
      rw [called] at isAdmit
      rcases map_eq_some_iff.1 isAdmit with ⟨checks, known, rfl⟩
      exact IndexMap.contents_mixRange_reopened valid known (mixCall_size called) reopened

end Step

section Loop

variable {table : ThreadState}

variable {constraints : List (Bound ThreadStateIndex)}

theorem filter_of_run (table : ThreadState)
    {reached : IndexMap} (run : runPartial table.filterStep (ofRange 0 table.rowCount) constraints =
      some reached) (orderBys : List (OrderBy ThreadStateIndex)) :
    ∃ map, table.filter constraints orderBys = some map ∧ map.rows =
      if IndexMap.finalDesc sortable orderBys ∧ table.rowCount ≠ 0 then reached.contents.reverse
      else
        reached.contents := by
  have fresh := IndexMap.valid_ofRange (table.rowCount : Int)
  have valid := table.appendSpec.valid_runPartial fresh run
  by_cases isEmpty : table.rowCount = 0
  · refine ⟨ofRange 0 table.rowCount, by simp [filter, isEmpty], ?_⟩
    have noRows : reached.contents = [] := by
      rw [eq_nil_iff_forall_not_mem]
      intro row member
      have inside := valid.mem_contents member
      omega
    rw [noRows, isEmpty]
    simp [IndexMap.rows, IndexMap.enumerate, ofRange]
  · rcases IndexMap.mergeIfData_returns valid with ⟨merged, isMerged, same, validMerged⟩
    refine ⟨IndexMap.applyOrderBys sortable orderBys merged, ?_, ?_⟩
    · simp [filter, isEmpty, run, isMerged]
    · rw [IndexMap.rows_applyOrderBys validMerged.visitable, same]
      simp [isEmpty]

theorem filter_eq_none (table : ThreadState) (nonempty : table.rowCount ≠ 0) (run :
    runPartial table.filterStep (ofRange 0 table.rowCount) constraints =
      none) (orderBys : List (OrderBy ThreadStateIndex)) :
    table.filter constraints orderBys = none := by
  simp [filter, nonempty, run]

/--
No row is visited twice, for a constraint list and each of its beginnings,
exactly when no step of the loop lists a row again.
-/
theorem filter_nodup_iff (table : ThreadState) (constraints : List (Bound ThreadStateIndex)) :
    (∀ before, before <+: constraints → ∀ orderBys map, table.filter before orderBys = some map →
      map.rows.Nodup) ↔ EachPartial table.filterStep (fun map bound =>
      ¬ IndexMap.Relists table.rowCount table.admitted map bound)
      (ofRange 0 table.rowCount) constraints := by
  have fresh := IndexMap.valid_ofRange (table.rowCount : Int)
  have distinct : (ofRange 0 (table.rowCount : Int)).contents.Nodup :=
    (rowRange_ascending 0 (table.rowCount : Int)).imp fun ordered => ordered.ne
  rw [← table.appendSpec.nodup_iff fresh distinct constraints]
  constructor
  · intro visited before reached isPrefix run
    rcases table.filter_of_run run [] with ⟨map, filtered, rows⟩
    have nodup := visited before isPrefix [] map filtered
    rw [rows] at nodup
    split_ifs at nodup
    · exact nodup_reverse.1 nodup
    · exact nodup
  · intro listed before isPrefix orderBys map filtered
    cases run : runPartial table.filterStep (ofRange 0 table.rowCount) before with
    | none =>
      by_cases isEmpty : table.rowCount = 0
      · have isFresh : map = ofRange 0 table.rowCount := by
          simpa [filter, isEmpty, eq_comm] using filtered
        subst isFresh
        simp [isEmpty, IndexMap.rows, IndexMap.enumerate, ofRange]
      · rw [table.filter_eq_none isEmpty run] at filtered
        cases filtered
    | some reached =>
      rcases table.filter_of_run run orderBys with ⟨other, same, rows⟩
      rw [same] at filtered
      cases filtered
      have nodup := listed before reached isPrefix run
      rw [rows]
      split_ifs
      · exact nodup_reverse.2 nodup
      · exact nodup

def oneState : ThreadState where
  rowCount := 1
  timeStamps := [10]
  durations := [5]
  itids := [1]
  tids := [100]
  pids := [100]
  states := [0]
  cpus := [0]
  argSetIds := [0]
  threadStatus2Value := [("R", 0)]
  rowCount_lt := by decide
  timeStamps_size := rfl
  durations_size := rfl
  itids_size := rfl
  tids_size := rfl
  pids_size := rfl
  states_size := rfl
  cpus_size := rfl
  argSetIds_size := rfl

/-- `ts IS NOT NULL AND cpu = 0` visits the only row twice. -/
theorem filter_repeats_row : ∃ map, oneState.filter [(⟨.ts, .isNotNull, false⟩, SqliteValue.null),
    (⟨.cpu, .eq, false⟩, SqliteValue.ofInt 0)] [] = some map ∧ ¬ map.rows.Nodup := by
  have run : runPartial oneState.filterStep (ofRange 0 oneState.rowCount)
    [(⟨.ts, .isNotNull, false⟩, SqliteValue.null), (⟨.cpu, .eq, false⟩, SqliteValue.ofInt 0)] =
      some
        { rowIndex := [0, 0]
          end_ := 2
          indexType := .outerIndex
          empty := false } := by
    decide
  rcases oneState.filter_of_run run [] with ⟨map, filtered, rows⟩
  refine ⟨map, filtered, ?_⟩
  rw [rows]
  decide

end Loop

end ThreadState

end SysAnalyzer.Table
