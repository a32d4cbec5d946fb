import SysAnalyzer.Foundation.Run
import SysAnalyzer.Table.IndexMapMerge
import SysAnalyzer.Table.TableBase

/-!
# The thread table

The cursor of `thread` has filters of its own.  `FilterId` does not write the
range out as a list.  `FilterTid`, `FilterIpid` and `FilterSwitchCount` fill
the list `rowIndex` without switching to it and without setting the data flag:
as long as the map is a range the list is a leftover nobody reads, until a
later filter writes the range out behind it.

SQLite checks all constraints again except the marked ones on `id` and `itid`.
The result is right when the rows that pass this check are exactly the rows
that satisfy every constraint, each visited once.
-/

namespace SysAnalyzer.Table

open Foundation List

/-- The columns of `thread`. -/
inductive ThreadIndex where
  | id
  | itid
  | type
  | tid
  | name
  | startTs
  | endTs
  | internalPid
  | isMainThread
  | switchCount

/-- The members of `Thread` the filters read. -/
structure Thread where
  internalPid : Fin (2 ^ 32) := ⊤
  tid : Fin (2 ^ 32) := 0
  switchCount : Fin (2 ^ 32) := 0

/-- The threads of the cache; the row number is the internal thread id. -/
structure ThreadTable where
  threads : List Thread
  size_lt : threads.length < 2 ^ 31

namespace ThreadTable

def rowCount (table : ThreadTable) : Nat :=
  table.threads.length

/-- `threadQueue[row]`. -/
def threadAt (table : ThreadTable) (row : Int) : Thread :=
  table.threads.getD row.toNat {}

/-! ## The filters -/

/-- `ThreadTable::Cursor::FilterId`: no conversion to a list. -/
def filterId (table : ThreadTable) (op : ConstraintOp) (argv : SqliteValue)
    (map : IndexMap) : IndexMap :=
  if argv.type ≠ .integer then
    map.intersect 0 0
  else
    map.filterIdSwitch table.rowCount op (wrapInt32 argv.int64)

/-- The rows `FilterTid` keeps, for the operators it knows. -/
def tidTest (op : ConstraintOp) (value : Fin (2 ^ 64)) : Option (Thread → Bool) :=
  match op with
  | .eq => some fun thread => thread.tid.val = value.val
  | .isNot => some fun thread => thread.tid.val ≠ value.val
  | .ne => some fun thread => thread.tid.val ≠ value.val
  | _ => none

/-- `FilterTid`: rows are erased from the list one by one. -/
def filterTid (table : ThreadTable) (op : ConstraintOp)
    (value : Fin (2 ^ 64)) (map : IndexMap) : IndexMap :=
  let remove := map.hasData
  let map := map.covertIfData
  match tidTest op value with
  | some test =>
    let keep := fun row => test (table.threadAt row)
    IndexMap.fixSize { map with
        rowIndex :=
          if remove then map.rowIndex.filter keep
          else map.rowIndex ++ (rowRange 0 table.rowCount).filter keep }
  | none => map

/-- The rows the filters on a column with NULL keep. -/
def nullableTest (column : Thread → Fin (2 ^ 32)) (op : ConstraintOp)
    (value : Fin (2 ^ 64)) : Option (Thread → Bool) :=
  match op with
  | .eq => some fun thread => (column thread).val = value.val
  | .isNull => some fun thread => column thread = ⊤
  | .isNotNull => some fun thread => column thread ≠ ⊤
  | _ => none

/--
`FilterIpid` and `FilterSwitchCount`, which differ in the column they read: the
kept rows are collected, and replace the list when there is one.
-/
def filterNullable (table : ThreadTable) (column : Thread → Fin (2 ^ 32))
    (op : ConstraintOp) (value : Fin (2 ^ 64)) (map : IndexMap) : IndexMap :=
  let remove := map.hasData
  let map := map.covertIfData
  match nullableTest column op value with
  | some test =>
    let keep := fun row => test (table.threadAt row)
    let kept := map.rowIndex.filter keep
    IndexMap.fixSize { map with
        rowIndex :=
          if remove then if kept.isEmpty then map.rowIndex else kept
          else map.rowIndex ++ (rowRange 0 table.rowCount).filter keep }
  | none => map

def filterIpid (table : ThreadTable) (op : ConstraintOp)
    (value : Fin (2 ^ 64)) (map : IndexMap) : IndexMap :=
  table.filterNullable Thread.internalPid op value map

def filterSwitchCount (table : ThreadTable) (op : ConstraintOp)
    (value : Fin (2 ^ 64)) (map : IndexMap) : IndexMap :=
  table.filterNullable Thread.switchCount op value map

def filterIndex (table : ThreadTable) (col : ThreadIndex)
    (op : ConstraintOp) (argv : SqliteValue) (map : IndexMap) : IndexMap :=
  match col with
  | .internalPid => table.filterIpid op (operand64 argv) map
  | .tid => table.filterTid op (operand64 argv) map
  | .switchCount => table.filterSwitchCount op (operand64 argv) map
  | _ => map

/-- One iteration of the constraint loop of `Cursor::Filter`. -/
def filterStep (table : ThreadTable) (map : IndexMap) (bound : Bound ThreadIndex) : IndexMap :=
  match bound.1.col with
  | .id => table.filterId bound.1.op bound.2 map
  | .itid => table.filterId bound.1.op bound.2 map
  | .tid => table.filterIndex .tid bound.1.op bound.2 map
  | .internalPid => table.filterIndex .internalPid bound.1.op bound.2 map
  | .switchCount => table.filterIndex .switchCount bound.1.op bound.2 map
  | _ => map

def sortable : ThreadIndex → Bool
  | .id => true
  | .itid => true
  | _ => false

/--
`ThreadTable::Cursor::Filter` on the fresh map `xFilter` supplies; `none` when
the merge does not return.
-/
def filter (table : ThreadTable) (constraints : List (Bound ThreadIndex))
    (orderBys : List (OrderBy ThreadIndex)) : Option IndexMap :=
  let map := ofRange 0 table.rowCount
  if table.rowCount = 0 then
    some map
  else do
    let map ← (run table.filterStep map constraints).mergeIfData
    return IndexMap.applyOrderBys sortable orderBys map

/-- `FilterByConstraint` of `thread` by column. -/
def columnKind : ThreadIndex → ColumnKind
  | .id => .rowNumber
  | .itid => .rowNumber
  | _ => .plain

/--
The constraints together with the `omit` flags `BestIndex` reports.  No column
is planned as sorted, so the quotient of the estimate is not used.
-/
def planned (table : ThreadTable) (constraints : List (Bound ThreadIndex)) :
    List (Bound ThreadIndex × Bool) :=
  constraints.zip (bestIndexOmit id columnKind table.rowCount (constraints.map Prod.fst))

/-- The cell of a column as SQLite sees it, `none` being NULL. -/
def cell (table : ThreadTable) (col : ThreadIndex) (row : Int) : Option Int :=
  let thread := table.threadAt row
  match col with
  | .id => some row
  | .itid => some row
  | .tid => some (wrapInt32 thread.tid.val)
  | .internalPid =>
    if thread.internalPid = ⊤ then none
    else some (wrapInt32 thread.internalPid.val)
  | .switchCount => some (wrapInt32 thread.switchCount.val)
  | _ => none

section Query

variable (other : UInt8 → SqliteValue → Option Int → Bool)

def satisfies (table : ThreadTable) (bound : Bound ThreadIndex) (row : Int) : Bool :=
  holdsCell other bound.1.op bound.2 (table.cell bound.1.col row)

def satisfiesAll (table : ThreadTable)
    (constraints : List (Bound ThreadIndex)) (row : Int) : Bool :=
  constraints.all fun bound => table.satisfies other bound row

def rechecked (table : ThreadTable) (constraints : List (Bound ThreadIndex)) (row : Int) : Bool :=
  (table.planned constraints).all fun entry =>
    entry.2 || table.satisfies other entry.1 row

end Query

/-! ## The state between two filters -/

/--
The state of the cursor's map between two filters.  Unlike in the other tables,
a range may come with leftovers in `rowIndex`; only a converted map is a list.
-/
structure Valid (rowCount : Int) (map : IndexMap) : Prop where
  range_start : map.indexType = .id → 0 ≤ map.start
  range_end : map.indexType = .id → map.end_ ≤ rowCount
  range_converted : map.indexType = .id → map.converted = false
  list_converted : map.indexType = .outerIndex → map.converted = true
  list_data : map.indexType = .outerIndex → map.empty = false
  list_start : map.indexType = .outerIndex → map.start = 0
  list_end : map.indexType = .outerIndex → map.end_ = map.rowIndex.length
  rows : ∀ row ∈ map.rowIndex, 0 ≤ row ∧ row < rowCount
  at_start : map.current = map.start
  forward : map.desc = false

/-- The map is a range that a list filter is going to write out. -/
def Converting (map : IndexMap) : Prop :=
  map.indexType = .id ∧ map.hasData = true

instance (map : IndexMap) : Decidable (Converting map) :=
  inferInstanceAs (Decidable (_ ∧ _))

/-- The rows a list filter works on: a range is written out behind the leftovers. -/
def written (map : IndexMap) : List Int :=
  if Converting map then map.rowIndex ++ map.contents else map.contents

section State

variable {rowCount : Int} {map : IndexMap}

theorem Valid.visitable (valid : Valid rowCount map) : IndexMap.Visitable map :=
  ⟨valid.list_start, valid.list_end, valid.at_start, valid.forward⟩

theorem valid_ofRange (rowCount : Int) : Valid rowCount (ofRange 0 rowCount) := by
  constructor <;> simp [ofRange]

section

variable (valid : Valid rowCount map)
include valid

theorem Valid.mem_contents {row : Int} (member : row ∈ map.contents) :
    0 ≤ row ∧ row < rowCount := by
  cases kind : map.indexType with
  | id =>
    rw [IndexMap.contents_range kind, mem_rowRange] at member
    have lower := valid.range_start kind
    have upper := valid.range_end kind
    omega
  | outerIndex =>
    rw [IndexMap.contents_list kind] at member
    exact valid.rows row member

theorem Valid.mem_written {row : Int} (member : row ∈ written map) : 0 ≤ row ∧ row < rowCount := by
  unfold written at member
  split_ifs at member
  · rcases mem_append.1 member with leftover | inside
    · exact valid.rows row leftover
    · exact valid.mem_contents inside
  · exact valid.mem_contents member

theorem covertIfData_of_data (data : map.hasData = true) :
    map.covertIfData.indexType = .outerIndex ∧ map.covertIfData.rowIndex = written map ∧
      Valid rowCount map.covertIfData := by
  have rowsInside : ∀ row ∈ written map, 0 ≤ row ∧ row < rowCount :=
    fun row member => valid.mem_written member
  have forward := valid.forward
  have atStart := valid.at_start
  cases kind : map.indexType with
  | id =>
    have unconverted := valid.range_converted kind
    have writes : written map = map.rowIndex ++ rowRange map.start map.end_ := by
      simp [written, Converting, kind, data, IndexMap.contents]
    have converted : map.covertIfData = { map with
            converted := true
            rowIndex := written map
            current := 0
            start := 0
            end_ := (written map).length
            indexType := .outerIndex
            empty := false } := by
      simp [IndexMap.covertIfData, data, IndexMap.covertToIndexMap, unconverted, kind, writes]
    rw [converted]
    refine ⟨rfl, rfl, ?_⟩
    constructor <;> first | exact rowsInside | simp [forward]
  | outerIndex =>
    have isConverted := valid.list_converted kind
    have unchanged : map.covertIfData = map := by
      simp only [IndexMap.covertIfData, data, if_true, IndexMap.covertToIndexMap, isConverted]
      cases map
      cases kind
      cases isConverted
      rfl
    have same : written map = map.rowIndex := by
      simp [written, Converting, kind, IndexMap.contents]
    rw [unchanged]
    exact ⟨kind, same.symm, valid⟩

theorem range_of_no_data (fresh : map.hasData = false) :
    map.indexType = .id ∧ map.covertIfData = map := by
  constructor
  · cases kind : map.indexType with
    | id => rfl
    | outerIndex =>
      have data := valid.list_data kind
      simp [IndexMap.hasData, data] at fresh
  · simp [IndexMap.covertIfData, fresh]

theorem valid_intersect (start stop : Int) : Valid rowCount (map.intersect start stop) := by
  have forward := valid.forward
  cases kind : map.indexType with
  | id =>
    have unconverted := valid.range_converted kind
    have lower := valid.range_start kind
    have upper := valid.range_end kind
    have inside : ∀ row ∈ (map.intersect start stop).rowIndex, 0 ≤ row ∧ row < rowCount := by
      simpa [IndexMap.intersect, kind] using valid.rows
    constructor <;> first
      | exact inside
      | simp [IndexMap.intersect, kind, unconverted, forward, lower, upper]
  | outerIndex =>
    have isConverted := valid.list_converted kind
    have inside : ∀ row ∈ (map.intersect start stop).rowIndex, 0 ≤ row ∧ row < rowCount := by
      intro row member
      rw [← IndexMap.contents_list (by simp [kind])] at member
      exact valid.mem_contents (IndexMap.intersect_subset start stop member)
    constructor <;> first
      | exact inside
      | simp [IndexMap.intersect, kind, isConverted, forward]

theorem valid_leftovers (isRange : map.indexType = .id)
    {rows : List Int} (inside : ∀ row ∈ rows, 0 ≤ row ∧ row < rowCount) :
    Valid rowCount (IndexMap.fixSize { map with rowIndex := rows }) ∧
      (IndexMap.fixSize { map with rowIndex := rows }).contents = map.contents := by
  have same : IndexMap.fixSize { map with rowIndex := rows } = { map with rowIndex := rows } := by
    simp [IndexMap.fixSize, isRange]
  rw [same]
  constructor
  · have isNotList : map.indexType ≠ .outerIndex := by simp [isRange]
    exact ⟨valid.range_start, valid.range_end, valid.range_converted,
      fun isList => absurd isList isNotList,
      fun isList => absurd isList isNotList,
      fun isList => absurd isList isNotList,
      fun isList => absurd isList isNotList,
      inside, valid.at_start, valid.forward⟩
  · rw [IndexMap.contents_range isRange]
    exact IndexMap.contents_range isRange

theorem valid_relist (isList : map.indexType = .outerIndex)
    {rows : List Int} (inside : ∀ row ∈ rows, 0 ≤ row ∧ row < rowCount) :
    Valid rowCount (IndexMap.fixSize { map with rowIndex := rows }) ∧
      (IndexMap.fixSize { map with rowIndex := rows }).contents = rows := by
  have same : IndexMap.fixSize { map with rowIndex := rows } =
      { map with rowIndex := rows, end_ := rows.length, current := 0 } := by
    simp [IndexMap.fixSize, isList]
  rw [same]
  constructor
  · have isConverted := valid.list_converted isList
    have hasRows := valid.list_data isList
    have listStart := valid.list_start isList
    have forward := valid.forward
    constructor <;> first
      | exact inside
      | simp [isList, isConverted, hasRows, listStart, forward]
  · exact IndexMap.contents_list isList

end

end State

/-! ## What a step does to the visited rows -/

/-- The windows of `FilterId`; a non-INTEGER operand has the empty window. -/
def idTest (rowCount : Int) (op : ConstraintOp) (argv : SqliteValue) (row : Int) : Bool :=
  let v := wrapInt32 argv.int64
  if argv.type ≠ .integer then
    false
  else
    match op with
    | .eq => v ≤ row && row < wrapInt32 (v + 1)
    | .ge => v ≤ row && row < rowCount
    | .gt => wrapInt32 (v + 1) ≤ row && row < rowCount
    | .le => 0 ≤ row && row < wrapInt32 (v + 1)
    | .lt => 0 ≤ row && row < v
    | _ => true

/-- The test a step puts its rows to; an operator the filter does not know passes all. -/
def passes (table : ThreadTable) (bound : Bound ThreadIndex) (row : Int) : Bool :=
  let thread := table.threadAt row
  let value := operand64 bound.2
  match bound.1.col with
  | .id => idTest table.rowCount bound.1.op bound.2 row
  | .itid => idTest table.rowCount bound.1.op bound.2 row
  | .tid => ((tidTest bound.1.op value).map (· thread)).getD true
  | .internalPid =>
    ((nullableTest Thread.internalPid bound.1.op value).map (· thread)).getD true
  | .switchCount =>
    ((nullableTest Thread.switchCount bound.1.op value).map (· thread)).getD true
  | _ => true

/-- The rows a step works on. -/
def base (map : IndexMap) (bound : Bound ThreadIndex) : List Int :=
  match bound.1.col with
  | .tid => written map
  | .internalPid => written map
  | .switchCount => written map
  | _ => map.contents

/--
The step leaves the visited rows as they are.  Without data a list filter only
fills the leftovers; a filter that would keep no row of a list keeps them all,
except for `FilterTid`, which erases.
-/
def KeepsAll (table : ThreadTable) (map : IndexMap) (bound : Bound ThreadIndex) : Prop :=
  match bound.1.col with
  | .id | .itid =>
    map.indexType = .outerIndex ∧ ∀ other ∈ map.contents, table.passes bound other = false
  | .tid => map.hasData = false
  | .internalPid | .switchCount =>
    map.hasData = false ∨ ∀ other ∈ written map, table.passes bound other = false
  | _ => True

/-- A row that stays among the visited ones. -/
def Kept (table : ThreadTable) (map : IndexMap) (bound : Bound ThreadIndex) (row : Int) : Prop :=
  table.KeepsAll map bound ∨ table.passes bound row = true

structure Outcome (rowCount : Int) (keepsAll : Prop) (test : Int → Bool)
    (rows : List Int) (after : IndexMap) : Prop where
  valid : Valid rowCount after
  all : keepsAll → after.contents = rows
  filtered : ¬ keepsAll → after.contents = rows.filter test

section Step

variable {table : ThreadTable} {map : IndexMap}

theorem outcome_of_all {rowCount : Int} {keepsAll : Prop} {test : Int → Bool}
    {rows : List Int} {after : IndexMap} (valid : Valid rowCount after)
    (same : after.contents = rows) (passed : ∀ row, test row = true) :
    Outcome rowCount keepsAll test rows after where
  valid := valid
  all := fun _ => same
  filtered := fun _ => by
    rw [filter_eq_self.2 fun row _ => passed row]
    exact same

theorem filter_rowRange (start stop first last : Int) :
    (rowRange start stop).filter (fun row => first ≤ row && row < last) =
      rowRange (max start first) (min stop last) := by
  apply List.Pairwise.eq_of_mem_iff (r := (· < ·))
  · exact (rowRange_ascending start stop).filter _
  · exact rowRange_ascending _ _
  · intro row
    simp only [mem_filter, mem_rowRange, Bool.and_eq_true, decide_eq_true_eq]
    omega

theorem intersect_outcome {rowCount : Int} (valid : Valid rowCount map)
    (start stop : Int) {test : Int → Bool} (window :
      ∀ row ∈ map.contents, test row = (start ≤ row && row < stop)) :
    Outcome rowCount (map.indexType = .outerIndex ∧ ∀ other ∈ map.contents, test other = false)
      test map.contents (map.intersect start stop) := by
  have sameFilter : map.contents.filter test =
      map.contents.filter fun row => start ≤ row && row < stop :=
    filter_congr window
  cases kind : map.indexType with
  | id =>
    refine ⟨valid_intersect valid start stop, fun both => absurd both.1 (by simp), fun _ => ?_⟩
    rw [sameFilter, IndexMap.contents_range kind, filter_rowRange,
      IndexMap.contents_range (by simp [kind])]
    simp [IndexMap.intersect, kind]
  | outerIndex =>
    have someIff : (∃ row ∈ map.contents, start ≤ row ∧ row < stop) ↔
        ¬ ∀ other ∈ map.contents, test other = false := by
      push Not
      apply exists_congr
      intro row
      apply and_congr_right
      intro member
      rw [window row member]
      simp
    refine ⟨valid_intersect valid start stop, ?_, ?_⟩
    · rintro ⟨_, noneLeft⟩
      rw [IndexMap.contents_intersect_list kind, if_neg (fun some => someIff.1 some noneLeft)]
    · intro someLeft
      rw [IndexMap.contents_intersect_list kind, sameFilter,
        if_pos (someIff.2 fun none => someLeft ⟨rfl, none⟩)]

theorem filterId_outcome (valid : Valid table.rowCount map) (op : ConstraintOp)
    (argv : SqliteValue) :
    Outcome table.rowCount (map.indexType = .outerIndex ∧
        ∀ other ∈ map.contents, idTest table.rowCount op argv other = false)
      (idTest table.rowCount op argv) map.contents
      (table.filterId op argv map) := by
  unfold filterId
  split_ifs with notInteger
  · apply intersect_outcome valid
    intro row member
    have inside := valid.mem_contents member
    have emptyWindow : (decide (0 ≤ row) && decide (row < 0)) = false := by
      simp [inside.1]
    rw [emptyWindow]
    simp [idTest, notInteger]
  · have isInteger : argv.type = .integer := not_not.1 notInteger
    cases op with
    | eq =>
      exact intersect_outcome valid _ _ (by simp [idTest, isInteger])
    | ge =>
      exact intersect_outcome valid _ _ (by simp [idTest, isInteger])
    | gt =>
      exact intersect_outcome valid _ _ (by simp [idTest, isInteger])
    | le =>
      exact intersect_outcome valid _ _ (by simp [idTest, isInteger])
    | lt =>
      exact intersect_outcome valid _ _ (by simp [idTest, isInteger])
    | ne => exact outcome_of_all valid rfl (by simp [idTest, isInteger])
    | isNot => exact outcome_of_all valid rfl (by simp [idTest, isInteger])
    | isNull => exact outcome_of_all valid rfl (by simp [idTest, isInteger])
    | isNotNull =>
      exact outcome_of_all valid rfl (by simp [idTest, isInteger])
    | other code =>
      exact outcome_of_all valid rfl (by simp [idTest, isInteger])

theorem written_of_no_data (fresh : map.hasData = false) : written map = map.contents := by
  simp [written, Converting, fresh]

section

variable (valid : Valid table.rowCount map)
include valid

theorem covertIfData_written :
    Valid table.rowCount map.covertIfData ∧ map.covertIfData.contents = written map := by
  cases data : map.hasData with
  | false =>
    rw [(range_of_no_data valid data).2, written_of_no_data data]
    exact ⟨valid, rfl⟩
  | true =>
    rcases covertIfData_of_data valid data with ⟨isList, listed, validList⟩
    exact ⟨validList, by rw [IndexMap.contents_list isList, listed]⟩

theorem leftovers_outcome (fresh : map.hasData = false)
    {keepsAll : Prop} (keeps : keepsAll) (test keep : Int → Bool) :
    Outcome table.rowCount keepsAll test (written map) (IndexMap.fixSize
        { map.covertIfData with
          rowIndex :=
            map.covertIfData.rowIndex ++
              (rowRange 0 table.rowCount).filter keep }) := by
  rcases range_of_no_data valid fresh with ⟨isRange, unchanged⟩
  have inside : ∀ row ∈ map.rowIndex ++ (rowRange 0 table.rowCount).filter keep,
      0 ≤ row ∧ row < table.rowCount := by
    intro row member
    rcases mem_append.1 member with old | new
    · exact valid.rows row old
    · exact mem_rowRange.1 (mem_of_mem_filter new)
  rcases valid_leftovers valid isRange inside with ⟨validLeft, same⟩
  rw [unchanged]
  refine ⟨validLeft, fun _ => ?_, fun notAll => absurd keeps notAll⟩
  rw [same, written_of_no_data fresh]

theorem filterTid_outcome (op : ConstraintOp) (value : Fin (2 ^ 64)) :
    Outcome table.rowCount (map.hasData = false) (fun row =>
        ((tidTest op value).map (· (table.threadAt row))).getD true)
      (written map) (table.filterTid op value map) := by
  unfold filterTid
  cases tests : tidTest op value with
  | none =>
    rcases covertIfData_written valid with ⟨validCovert, same⟩
    exact outcome_of_all validCovert same (by simp)
  | some test =>
    cases data : map.hasData with
    | false =>
      simp only [Bool.false_eq_true, if_false]
      exact leftovers_outcome valid data trivial _ _
    | true =>
      rcases covertIfData_of_data valid data with
        ⟨isList, listed, validList⟩
      have inside : ∀ row ∈ (written map).filter fun row =>
              test (table.threadAt row),
            0 ≤ row ∧ row < table.rowCount :=
        fun row member =>
          valid.mem_written (mem_of_mem_filter member)
      rcases valid_relist validList isList inside with ⟨validRelist, same⟩
      simp only [if_true, listed]
      exact ⟨validRelist, fun isFalse => (by cases isFalse), fun _ => same⟩

theorem filterNullable_outcome (column : Thread → Fin (2 ^ 32))
    (op : ConstraintOp) (value : Fin (2 ^ 64)) {test : Int → Bool} (isTest :
      ∀ row, test row = ((nullableTest column op value).map (· (table.threadAt row))).getD true) :
    Outcome table.rowCount (map.hasData = false ∨ ∀ other ∈ written map, test other = false)
      test (written map) (table.filterNullable column op value map) := by
  unfold filterNullable
  cases tests : nullableTest column op value with
  | none =>
    rcases covertIfData_written valid with ⟨validCovert, same⟩
    exact outcome_of_all validCovert same (by simp [isTest, tests])
  | some keep =>
    have testEq : test = fun row => keep (table.threadAt row) := by
      funext row
      simp [isTest, tests]
    subst testEq
    cases data : map.hasData with
    | false =>
      simp only [Bool.false_eq_true, if_false]
      exact leftovers_outcome valid data (Or.inl trivial) _ _
    | true =>
      rcases covertIfData_of_data valid data with
        ⟨isList, listed, validList⟩
      simp only [if_true, listed, Bool.true_eq_false, false_or]
      split_ifs with noneLeft
      · rw [List.isEmpty_iff, filter_eq_nil_iff] at noneLeft
        rcases valid_relist validList isList (fun row => valid.mem_written) with
          ⟨validRelist, same⟩
        refine ⟨validRelist, fun _ => same, fun some => ?_⟩
        refine absurd (fun other member => ?_) some
        simpa using noneLeft other member
      · rw [List.isEmpty_iff, filter_eq_nil_iff] at noneLeft
        have inside : ∀ row ∈ (written map).filter fun row =>
                keep (table.threadAt row),
              0 ≤ row ∧ row < table.rowCount :=
          fun row member =>
            valid.mem_written (mem_of_mem_filter member)
        rcases valid_relist validList isList inside with
          ⟨validRelist, same⟩
        refine ⟨validRelist, fun none => ?_, fun _ => same⟩
        refine absurd (fun other member => ?_) noneLeft
        simp [none other member]

theorem filterStep_outcome (bound : Bound ThreadIndex) :
    Outcome table.rowCount (table.KeepsAll map bound) (table.passes bound)
      (base map bound) (table.filterStep map bound) := by
  rcases bound with ⟨⟨col, op, support⟩, argv⟩
  cases col with
  | id => exact filterId_outcome valid op argv
  | itid => exact filterId_outcome valid op argv
  | tid => exact filterTid_outcome valid op (operand64 argv)
  | internalPid =>
    exact filterNullable_outcome valid Thread.internalPid op (operand64 argv) fun row => rfl
  | switchCount =>
    exact filterNullable_outcome valid Thread.switchCount op (operand64 argv) fun row => rfl
  | _ => exact outcome_of_all valid rfl fun row => rfl

end

end Step

/-! ## The whole loop -/

/-- The filter step of a constraint with its flag; the flag is not read. -/
def plannedStep (table : ThreadTable) (map : IndexMap)
    (entry : Bound ThreadIndex × Bool) : IndexMap :=
  table.filterStep map entry.1

/-- A filter that writes the range out does so behind leftovers that pass the re-check. -/
def WritesBehindLeftovers (recheck : Int → Bool) (map : IndexMap)
    (bound : Bound ThreadIndex) : Prop :=
  base map bound ≠ map.contents ∧ ∃ row ∈ map.rowIndex, recheck row = true

/-- A step loses a row that satisfies every constraint. -/
def Loses (table : ThreadTable) (wanted : Int → Bool) (map : IndexMap)
    (bound : Bound ThreadIndex) : Prop :=
  ∃ row ∈ map.contents, wanted row = true ∧ ¬ table.Kept map bound row

/-- A marked step keeps a row that fails the constraint, and SQLite will not notice. -/
def KeepsWrong (table : ThreadTable) (other : UInt8 → SqliteValue → Option Int → Bool)
    (recheck : Int → Bool) (map : IndexMap) (bound : Bound ThreadIndex) : Prop :=
  ∃ row ∈ map.contents, recheck row = true ∧ table.Kept map bound row ∧
      table.satisfies other bound row = false

/-- A step without fault, read in the state before it. -/
structure StepSafe (table : ThreadTable)
    (other : UInt8 → SqliteValue → Option Int → Bool)
    (constraints : List (Bound ThreadIndex)) (map : IndexMap)
    (entry : Bound ThreadIndex × Bool) : Prop where
  leftovers : ¬ WritesBehindLeftovers (table.rechecked other constraints) map entry.1
  loses : ¬ table.Loses (table.satisfiesAll other constraints) map entry.1
  keepsWrong : entry.2 = true →
      ¬ table.KeepsWrong other (table.rechecked other constraints) map entry.1

/-- An emptied range with leftovers: the merge after the loop does not return. -/
def Stranded (map : IndexMap) : Prop :=
  map.indexType = .id ∧ map.end_ < map.start ∧ map.rowIndex ≠ []

instance (map : IndexMap) : Decidable (Stranded map) :=
  inferInstanceAs (Decidable (_ ∧ _ ∧ _))

/--
The loop invariant, for the rows that pass the re-check: each is visited at
most once, fails no marked constraint processed so far, and is still there if
it satisfies them all.
-/
structure Progress (table : ThreadTable)
    (other : UInt8 → SqliteValue → Option Int → Bool)
    (constraints : List (Bound ThreadIndex))
    (processed : List (Bound ThreadIndex × Bool)) (map : IndexMap) :
    Prop where
  valid : Valid table.rowCount map
  once : ∀ row, table.rechecked other constraints row = true → map.contents.count row ≤ 1
  sound : ∀ row ∈ map.contents, table.rechecked other constraints row = true →
      ∀ entry ∈ processed, entry.2 = true → table.satisfies other entry.1 row = true
  complete : ∀ row : Int, 0 ≤ row → row < table.rowCount →
      table.satisfiesAll other constraints row = true → row ∈ map.contents

section Loop

variable {table : ThreadTable}
variable {other : UInt8 → SqliteValue → Option Int → Bool}
variable {constraints : List (Bound ThreadIndex)}

theorem planned_fst (table : ThreadTable) (constraints : List (Bound ThreadIndex)) :
    (table.planned constraints).map Prod.fst = constraints := by
  rw [planned, map_fst_zip]
  simp [bestIndexOmit_length]

theorem satisfiesAll_iff (row : Int) :
    table.satisfiesAll other constraints row = true ↔ table.rechecked other constraints row = true ∧
        ∀ entry ∈ table.planned constraints, entry.2 = true →
          table.satisfies other entry.1 row = true := by
  have allEntries : table.satisfiesAll other constraints row = true ↔
      ∀ entry ∈ table.planned constraints, table.satisfies other entry.1 row = true := by
    conv_lhs => rw [← planned_fst table constraints]
    simp [satisfiesAll, all_eq_true]
  rw [allEntries]
  simp only [rechecked, all_eq_true, Bool.or_eq_true]
  constructor
  · intro all
    exact ⟨fun entry member => Or.inr (all entry member), fun entry member _ => all entry member⟩
  · rintro ⟨unmarked, marked⟩ entry member
    rcases unmarked entry member with isMarked | satisfied
    · exact marked entry member isMarked
    · exact satisfied

theorem base_cases (map : IndexMap) (bound : Bound ThreadIndex) :
    base map bound = map.contents ∨ base map bound = map.rowIndex ++ map.contents := by
  rcases bound with ⟨⟨col, op, support⟩, argv⟩
  cases col <;> first
    | exact Or.inl rfl
    | (simp only [base, written]
       split_ifs
       · exact Or.inr rfl
       · exact Or.inl rfl)

variable {entry : Bound ThreadIndex × Bool}

theorem count_base {map : IndexMap} (safe : table.StepSafe other constraints map entry) {row : Int}
    (passed : table.rechecked other constraints row = true) :
    (base map entry.1).count row = map.contents.count row := by
  by_cases same : base map entry.1 = map.contents
  · rw [same]
  · have appended : base map entry.1 = map.rowIndex ++ map.contents :=
      (base_cases map entry.1).resolve_left same
    have absent : row ∉ map.rowIndex :=
      fun leftover => safe.leftovers ⟨same, row, leftover, passed⟩
    rw [appended, count_append, count_eq_zero_of_not_mem absent, zero_add]

variable {processed : List (Bound ThreadIndex × Bool)}

theorem Progress.step {map : IndexMap} (progress : table.Progress other constraints processed map)
    (safe : table.StepSafe other constraints map entry) :
    table.Progress other constraints (processed ++ [entry]) (table.plannedStep map entry) := by
  have outcome := filterStep_outcome progress.valid entry.1
  have countLe : ∀ row, (table.plannedStep map entry).contents.count row ≤
      (base map entry.1).count row := by
    intro row
    by_cases keeps : table.KeepsAll map entry.1
    · exact (congrArg (List.count row) (outcome.all keeps)).le
    · rw [plannedStep, outcome.filtered keeps]
      exact List.Sublist.count_le row filter_sublist
  have wasThere : ∀ row ∈ (table.plannedStep map entry).contents,
      table.rechecked other constraints row = true →
        row ∈ map.contents ∧ table.Kept map entry.1 row := by
    intro row member passed
    constructor
    · rw [← count_pos_iff, ← count_base safe passed]
      exact (count_pos_iff.2 member).trans_le (countLe row)
    · by_cases keeps : table.KeepsAll map entry.1
      · exact Or.inl keeps
      · rw [plannedStep, outcome.filtered keeps, mem_filter] at member
        exact Or.inr member.2
  refine ⟨outcome.valid, ?_, ?_, ?_⟩
  · intro row passed
    have before := progress.once row passed
    rw [← count_base safe passed] at before
    exact (countLe row).trans before
  · intro row member passed marked inProcessed isMarked
    rcases wasThere row member passed with ⟨visited, kept⟩
    rcases mem_append.1 inProcessed with earlier | last
    · exact progress.sound row visited passed marked earlier isMarked
    · rw [mem_singleton.1 last] at isMarked ⊢
      by_contra wrong
      exact safe.keepsWrong isMarked ⟨row, visited, passed, kept, by simpa using wrong⟩
  · intro row lower upper wanted
    have visited := progress.complete row lower upper wanted
    have kept : table.Kept map entry.1 row := by
      by_contra lost
      exact safe.loses ⟨row, visited, wanted, lost⟩
    have inBase : row ∈ base map entry.1 := by
      rcases base_cases map entry.1 with same | appended
      · rwa [same]
      · rw [appended]
        exact mem_append_right _ visited
    by_cases keeps : table.KeepsAll map entry.1
    · rw [plannedStep, outcome.all keeps]
      exact inBase
    · rw [plannedStep, outcome.filtered keeps]
      exact mem_filter.2 ⟨inBase, kept.resolve_left keeps⟩

theorem Progress.run {entries : List (Bound ThreadIndex × Bool)} {map : IndexMap}
    (progress : table.Progress other constraints processed map) (safe :
      EachStep table.plannedStep (table.StepSafe other constraints) map entries) :
    table.Progress other constraints (processed ++ entries)
      (run table.plannedStep map entries) := by
  induction entries generalizing processed map with
  | nil => simpa using progress
  | cons entry rest induction =>
    have later := induction (progress.step safe.1) safe.2
    simpa using later

theorem progress_ofRange :
    table.Progress other constraints [] (ofRange 0 table.rowCount) where
  valid := valid_ofRange _
  once := by
    intro row _
    have distinct : (rowRange 0 (table.rowCount : Int)).Nodup :=
      (rowRange_ascending 0 _).imp fun ordered => ordered.ne
    exact nodup_iff_count_le_one.1 distinct row
  sound := by simp
  complete := by
    intro row lower upper _
    exact mem_rowRange.2 ⟨lower, upper⟩

theorem mergeIfData_of_valid {rowCount : Int} {map : IndexMap} (valid : Valid rowCount map)
    (returns : ¬ Stranded map) :
    ∃ merged, map.mergeIfData = some merged ∧ merged.contents = map.contents ∧
        IndexMap.Visitable merged := by
  unfold IndexMap.mergeIfData
  split_ifs with data
  · have covert := covertIfData_of_data valid data
    rw [IndexMap.covertIfData, if_pos data] at covert
    rcases covert with ⟨isList, listed, validList⟩
    have visitable : IndexMap.Visitable map.covertToIndexMap.restart :=
      ⟨fun _ => rfl, fun _ => rfl, rfl, validList.forward⟩
    have contents : map.covertToIndexMap.restart.contents = written map := by
      rw [← listed]
      exact IndexMap.contents_list isList
    cases kind : map.indexType with
    | id =>
      by_cases ordered : map.start ≤ map.end_
      · refine ⟨map, ?_, rfl, valid.visitable⟩
        simp only [IndexMap.merge, kind, le_refl, ordered, and_self,
          if_true, or_self, min_self, max_self]
        rw [← kind]
      · have noLeftovers : map.rowIndex = [] := by
          by_contra leftovers
          exact returns ⟨kind, by omega, leftovers⟩
        have none : map.contents = [] := by
          rw [IndexMap.contents_range kind, rowRange_eq_nil (by omega)]
        have noneWritten : written map = [] := by
          simp [written, noLeftovers, none]
        refine ⟨map.covertToIndexMap.restart, ?_, ?_, visitable⟩
        · simp [IndexMap.merge, kind, ordered, listed, noneWritten]
        · rw [contents, noneWritten, none]
    | outerIndex =>
      refine ⟨map.covertToIndexMap.restart, ?_, ?_, visitable⟩
      · simp [IndexMap.merge, kind, IndexMap.mergeLists_self, -IndexMap.covertToIndexMap_indexType]
      · rw [contents]
        simp [written, Converting, kind]
  · exact ⟨map, rfl, rfl, valid.visitable⟩

theorem Progress.perm {map : IndexMap} (progress :
      table.Progress other constraints (table.planned constraints) map) :
    (map.contents.filter (table.rechecked other constraints)).Perm
      ((rowRange 0 table.rowCount).filter (table.satisfiesAll other constraints)) := by
  have distinct : (rowRange 0 (table.rowCount : Int)).Nodup :=
    (rowRange_ascending 0 _).imp fun ordered => ordered.ne
  rw [perm_ext_iff_of_nodup]
  · intro row
    simp only [mem_filter, mem_rowRange, satisfiesAll_iff]
    constructor
    · rintro ⟨visited, passed⟩
      exact ⟨progress.valid.mem_contents visited, passed, progress.sound row visited passed⟩
    · rintro ⟨⟨lower, upper⟩, wanted⟩
      exact ⟨progress.complete row lower upper ((satisfiesAll_iff row).2 wanted), wanted.1⟩
  · rw [nodup_iff_count_le_one]
    intro row
    by_cases passed : table.rechecked other constraints row = true
    · exact (List.Sublist.count_le row filter_sublist).trans (progress.once row passed)
    · rw [count_eq_zero_of_not_mem]
      · exact Nat.zero_le 1
      · exact fun member => passed (mem_filter.1 member).2
  · exact distinct.filter _

/--
A loop without fault that ends with no stranded map: the visited rows that pass
the re-check are the rows that satisfy every constraint, each once.
-/
theorem filter_exact (table : ThreadTable) (other : UInt8 → SqliteValue → Option Int → Bool)
    (constraints : List (Bound ThreadIndex)) (orderBys : List (OrderBy ThreadIndex)) (safe :
      EachStep table.plannedStep (table.StepSafe other constraints)
        (ofRange 0 table.rowCount) (table.planned constraints)) (returns :
      ¬ Stranded (run table.filterStep (ofRange 0 table.rowCount) constraints)) :
    ∃ map, table.filter constraints orderBys = some map ∧
        (map.rows.filter (table.rechecked other constraints)).Perm
          ((rowRange 0 table.rowCount).filter (table.satisfiesAll other constraints)) := by
  have sameRun : run table.plannedStep (ofRange 0 table.rowCount) (table.planned constraints) =
      run table.filterStep (ofRange 0 table.rowCount) constraints := by
    rw [← planned_fst table constraints, planned_fst]
    exact (run_map table.filterStep Prod.fst _ _).trans (by rw [planned_fst])
  have progress := progress_ofRange.run safe
  rw [sameRun, nil_append] at progress
  have perm := progress.perm
  by_cases isEmpty : table.rowCount = 0
  · refine ⟨ofRange 0 table.rowCount, by simp [filter, isEmpty], ?_⟩
    simp [isEmpty, IndexMap.rows, IndexMap.enumerate, ofRange, rowRange]
  · rcases mergeIfData_of_valid progress.valid returns with
      ⟨merged, isMerged, same, visitable⟩
    refine ⟨IndexMap.applyOrderBys sortable orderBys merged,
      by simp [filter, isEmpty, isMerged], ?_⟩
    rw [IndexMap.rows_applyOrderBys visitable, same]
    split_ifs
    · exact ((reverse_perm _).filter _).trans perm
    · exact perm

/-- `column op value`. -/
def constraint (col : ThreadIndex) (op : ConstraintOp) (value : Int) : Bound ThreadIndex :=
  (⟨col, op, false⟩, SqliteValue.ofInt value)

def twoThreads : ThreadTable where
  threads := [{ internalPid := 1, tid := 5 }, { internalPid := 1, tid := 6 }]
  size_lt := by decide

def reusedTid : ThreadTable where
  threads := [{ internalPid := 1, tid := 5 }, { internalPid := 2, tid := 5 }]
  size_lt := by decide

theorem filter_exact_tid_then_id :
    ∃ map, twoThreads.filter [constraint .tid .eq 5, constraint .id .eq 0] [] = some map ∧
        (map.rows.filter (twoThreads.rechecked (fun _ _ _ => false)
            [constraint .tid .eq 5, constraint .id .eq 0])).Perm
          ((rowRange 0 twoThreads.rowCount).filter (twoThreads.satisfiesAll (fun _ _ _ => false)
              [constraint .tid .eq 5, constraint .id .eq 0])) := by
  apply filter_exact
  · refine ⟨⟨?_, ?_, ?_⟩, ⟨?_, ?_, ?_⟩, trivial⟩
    · exact fun writes => writes.1 rfl
    · rintro ⟨row, _, _, lost⟩
      exact lost (Or.inl rfl)
    · rintro ⟨⟩
    · exact fun writes => writes.1 rfl
    · rintro ⟨row, inside, wanted, lost⟩
      have found : ∀ row ∈ rowRange 0 2, twoThreads.satisfiesAll (fun _ _ _ => false)
          [constraint .tid .eq 5, constraint .id .eq 0] row = true →
            twoThreads.passes (constraint .id .eq 0) row = true := by
        decide
      exact lost (Or.inr (found row inside wanted))
    · rintro _ ⟨row, inside, _, isList | found, wrong⟩
      · cases isList.1
      · have right : ∀ row ∈ rowRange 0 2, twoThreads.passes (constraint .id .eq 0) row = true →
            twoThreads.satisfies (fun _ _ _ => false) (constraint .id .eq 0) row = true := by
          decide
        have holds := right row inside found
        exact Bool.false_ne_true (wrong.symm.trans holds)
  · decide

theorem valid_run (table : ThreadTable) (constraints : List (Bound ThreadIndex)) :
    Valid table.rowCount (run table.filterStep (ofRange 0 table.rowCount) constraints) := by
  apply run_invariant_of_preserves _ constraints (valid_ofRange _)
  intro map bound valid
  exact (filterStep_outcome valid bound).valid

/--
`tid = 5 AND id = 0 AND tid = 5` on reused ids: the range of `id = 0` is written
out behind the leftovers of the first constraint, and row 0 is visited twice.
-/
theorem filter_inexact_reusedTid :
    ∃ map, reusedTid.filter [constraint .tid .eq 5, constraint .id .eq 0,
            constraint .tid .eq 5] [] =
          some map ∧
        ¬ (map.rows.filter (reusedTid.rechecked (fun _ _ _ => false)
              [constraint .tid .eq 5, constraint .id .eq 0, constraint .tid .eq 5])).Perm
            ((rowRange 0 reusedTid.rowCount).filter (reusedTid.satisfiesAll (fun _ _ _ => false)
                [constraint .tid .eq 5, constraint .id .eq 0, constraint .tid .eq 5])) := by
  rcases mergeIfData_of_valid (valid_run reusedTid
    [constraint .tid .eq 5, constraint .id .eq 0, constraint .tid .eq 5]) (by decide) with
    ⟨merged, isMerged, same, visitable⟩
  have visited : merged.contents = [0, 1, 0] := by
    rw [same]
    decide
  refine ⟨IndexMap.applyOrderBys sortable [] merged,
    by rw [filter, if_neg (by decide), isMerged]; rfl, ?_⟩
  rw [IndexMap.rows_applyOrderBys visitable, visited]
  decide

end Loop

end ThreadTable

end SysAnalyzer.Table
