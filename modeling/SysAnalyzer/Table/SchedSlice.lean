import SysAnalyzer.Foundation.Run
import SysAnalyzer.Table.TableBase

/-!
# The sched_slice table

`Cursor::Filter` of `sched_slice` starts from the full row range and hands the
constraints, in the order SQLite lists them, to the filters of the index map.
This module embeds that loop and states what it is for: a row that satisfies
every constraint is visited.

The loop does not always do so.  `Drops` lists the rows one step loses, read in
the state before the step, and `filter_complete_iff` shows that the list is
complete: every satisfying row is visited exactly when no step drops one.  A
timestamp search that leaves the column has no result (`FilterDefined`).
-/

namespace SysAnalyzer.Table

open Foundation List

/-- The columns of `sched_slice`. -/
inductive SchedIndex where
  | id
  | type
  | ts
  | dur
  | tsEnd
  | cpu
  | internalTid
  | internalPid
  | endState
  | priority
  | argSetId

/--
The columns `Cursor::Filter` reads.  All have one cell per row, and rows are
numbered by `TableRowId`, a signed 32-bit integer.
-/
structure SchedSlice where
  rowCount : Nat
  timeStamps : List (Fin (2 ^ 64))
  durs : List (Fin (2 ^ 64))
  cpus : List (Fin (2 ^ 32))
  internalTids : List (Fin (2 ^ 32))
  internalPids : List (Fin (2 ^ 32))
  rowCount_lt : rowCount < 2 ^ 31
  timeStamps_size : timeStamps.length = rowCount
  durs_size : durs.length = rowCount
  cpus_size : cpus.length = rowCount
  internalTids_size : internalTids.length = rowCount
  internalPids_size : internalPids.length = rowCount

namespace SchedSlice

/-- One iteration of the constraint loop of `Cursor::Filter`. -/
def filterStep (table : SchedSlice) (map : IndexMap) (bound : Bound SchedIndex) : IndexMap :=
  let op := bound.1.op
  let argv := bound.2
  match bound.1.col with
  | .id => map.cursorFilterId table.rowCount op argv
  | .ts => map.filterTS op argv table.timeStamps
  | .cpu => map.mixRange op (operand32 argv) table.cpus
  | .internalTid => map.mixRange op (operand32 argv) table.internalTids
  | .internalPid => map.mixRange op (operand32 argv) table.internalPids
  | .dur => map.mixRange op (operand64 argv) table.durs
  | _ => map

/-- The columns whose ORDER BY terms reposition the cursor. -/
def sortable : SchedIndex → Bool
  | .id => true
  | .ts => true
  | _ => false

def filter (table : SchedSlice) (constraints : List (Bound SchedIndex))
    (orderBys : List (OrderBy SchedIndex)) : IndexMap :=
  let map := ofRange 0 table.rowCount
  if table.rowCount = 0 then map
  else IndexMap.applyOrderBys sortable orderBys (run table.filterStep map constraints)

/-- A comparison of timestamps searches inside the column. -/
def StepDefined (table : SchedSlice) (map : IndexMap) (bound : Bound SchedIndex) : Prop :=
  bound.1.col = .ts → bound.1.op ∈ [.eq, .gt, .ge, .lt, .le] →
    map.SearchesInside table.timeStamps

/-- No step of the loop searches outside the column. -/
def FilterDefined (table : SchedSlice) (constraints : List (Bound SchedIndex)) : Prop :=
  table.rowCount = 0 ∨
    EachStep table.filterStep table.StepDefined (ofRange 0 table.rowCount) constraints

/-- The row satisfies the constraint; columns without a filter are SQLite's business. -/
def Satisfies (table : SchedSlice) (bound : Bound SchedIndex) (row : Int) : Prop :=
  let op := bound.1.op
  let argv := bound.2
  match bound.1.col with
  | .id => Holds none op argv row
  | .ts => Holds (some (2 ^ 64 - 1)) op argv (queueAt table.timeStamps row).val
  | .dur => Holds (some (2 ^ 64 - 1)) op argv (queueAt table.durs row).val
  | .cpu => Holds (some (2 ^ 32 - 1)) op argv (queueAt table.cpus row).val
  | .internalTid => Holds (some (2 ^ 32 - 1)) op argv (queueAt table.internalTids row).val
  | .internalPid => Holds (some (2 ^ 32 - 1)) op argv (queueAt table.internalPids row).val
  | _ => True

def SatisfiesAll (table : SchedSlice) (constraints : List (Bound SchedIndex)) (row : Int) : Prop :=
  0 ≤ row ∧ row < table.rowCount ∧ ∀ bound ∈ constraints, table.Satisfies bound row

/-- The integers that fit a column's type: `TableRowId`, `uint64_t` or `uint32_t`. -/
def fitsColumn (col : SchedIndex) (value : Int) : Prop :=
  match col with
  | .id => -2 ^ 31 ≤ value ∧ value < 2 ^ 31
  | .ts => 0 ≤ value ∧ value < 2 ^ 63
  | .dur => 0 ≤ value ∧ value < 2 ^ 63
  | .cpu => 0 ≤ value ∧ value < 2 ^ 32
  | .internalTid => 0 ≤ value ∧ value < 2 ^ 32
  | .internalPid => 0 ≤ value ∧ value < 2 ^ 32
  | _ => False

/-- The columns `Cursor::Filter` has a case for. -/
def filtered : SchedIndex → Bool
  | .id | .ts | .dur | .cpu | .internalTid | .internalPid => true
  | _ => false

/-- One of the eight operators, with a fitting INTEGER operand where it has one. -/
def UsableOperand (fits : Int → Prop) (op : ConstraintOp) (argv : SqliteValue) : Prop :=
  match op with
  | .isNull => True
  | .isNotNull => True
  | .isNot => False
  | .other _ => False
  | _ => argv.type = .integer ∧ fits argv.int64

/-- The constraints in question: on a filtered column, with a fitting operand. -/
def Usable (bound : Bound SchedIndex) : Prop :=
  filtered bound.1.col = true ∧ UsableOperand (fitsColumn bound.1.col) bound.1.op bound.2

/--
A timestamp search on a list looks only at the first `rowIndex.size()` rows of
the column.  A listed row beyond them is lost as soon as the search keeps some
other row.
-/
def StaleWindow (map : IndexMap) (row : Int) (matched : Int → Prop) : Prop :=
  map.indexType = .outerIndex ∧ map.rowIndex.length ≤ row ∧
    ∃ other ∈ map.rowIndex, other < map.rowIndex.length ∧ matched other

/-- `id IS NOT NULL` empties a range; `id <= INT32_MAX` overflows on a fresh one. -/
def IdDrops (op : ConstraintOp) (argv : SqliteValue) (map : IndexMap) : Prop :=
  (op = .isNotNull ∧ argv.type ≠ .integer ∧ map.indexType = .id) ∨
    (op = .le ∧ argv.int64 = 2 ^ 31 - 1 ∧ map.indexType = .id ∧ map.hasData = false)

/-- A timestamp equality loses rows to its own ties, `<` and `<=` to any row found. -/
def TsDrops (times : List (Fin (2 ^ 64))) (op : ConstraintOp) (map : IndexMap) (row : Int) : Prop :=
  (op = .eq ∧ StaleWindow map row fun other =>
    queueAt times other = queueAt times row) ∨
    ((op = .lt ∨ op = .le) ∧ StaleWindow map row fun _ => True)

/-- The satisfying rows that one iteration of the loop loses. -/
def Drops (table : SchedSlice) (map : IndexMap) (bound : Bound SchedIndex) (row : Int) : Prop :=
  let op := bound.1.op
  match bound.1.col with
  | .id => IdDrops op bound.2 map
  | .ts => TsDrops table.timeStamps op map row
  | .cpu => IndexMap.MixDrops op table.cpus map row
  | .internalTid => IndexMap.MixDrops op table.internalTids map row
  | .internalPid => IndexMap.MixDrops op table.internalPids map row
  | .dur => IndexMap.MixDrops op table.durs map row
  | _ => False

section Step

variable {table : SchedSlice} {map : IndexMap}

theorem valid_filterStep (valid : IndexMap.Valid table.rowCount map) (bound : Bound SchedIndex) :
    IndexMap.Valid table.rowCount (table.filterStep map bound) := by
  have times : (table.timeStamps.length : Int) = table.rowCount := by
    exact_mod_cast table.timeStamps_size
  have durs : (table.durs.length : Int) = table.rowCount := by exact_mod_cast table.durs_size
  have cpus : (table.cpus.length : Int) = table.rowCount := by exact_mod_cast table.cpus_size
  have itids : (table.internalTids.length : Int) = table.rowCount := by
    exact_mod_cast table.internalTids_size
  have ipids : (table.internalPids.length : Int) = table.rowCount := by
    exact_mod_cast table.internalPids_size
  unfold filterStep
  cases bound.1.col with
  | id => exact IndexMap.valid_cursorFilterId valid _ _ _
  | ts => exact IndexMap.valid_filterTS valid times _ _
  | dur => exact IndexMap.valid_mixRange valid _ _ durs
  | cpu => exact IndexMap.valid_mixRange valid _ _ cpus
  | internalTid => exact IndexMap.valid_mixRange valid _ _ itids
  | internalPid => exact IndexMap.valid_mixRange valid _ _ ipids
  | type => exact valid
  | tsEnd => exact valid
  | endState => exact valid
  | priority => exact valid
  | argSetId => exact valid

theorem valid_run (valid : IndexMap.Valid table.rowCount map)
    (constraints : List (Bound SchedIndex)) :
    IndexMap.Valid table.rowCount (run table.filterStep map constraints) := by
  apply run_invariant_of_preserves _ constraints valid
  intro state bound validState
  exact valid_filterStep validState bound

variable {row : Int}

section

variable (valid : IndexMap.Valid table.rowCount map)
include valid

/-- A satisfying row gets through the filter of ids unless it is dropped. -/
theorem mem_cursorFilterId_iff {op : ConstraintOp} {argv : SqliteValue}
    (usable : UsableOperand (fitsColumn .id) op argv)
    (member : row ∈ map.contents) (satisfied : Holds none op argv row) :
    row ∈ (map.cursorFilterId table.rowCount op argv).contents ↔ ¬ IdDrops op argv map := by
  have inside := valid.mem_contents member
  have bounded := table.rowCount_lt
  have listed : row ∈ map.covertIfData.contents := by rwa [IndexMap.contents_covertIfData valid]
  cases op with
  | isNull => simp [Holds] at satisfied
  | isNot => exact usable.elim
  | other code => exact usable.elim
  | isNotNull =>
    by_cases isInteger : argv.type = .integer
    · simp [IndexMap.cursorFilterId, isInteger, IndexMap.filterIdSwitch, listed, IdDrops]
    · simp only [IndexMap.cursorFilterId, ne_eq, isInteger, not_false_eq_true, if_true]
      rw [IndexMap.mem_intersect_of_inverted le_rfl]
      cases kind : map.indexType <;> simp [member, IdDrops, isInteger, kind]
  | ne =>
    obtain ⟨isInteger, lower, upper⟩ := usable
    rw [IndexMap.cursorFilterId_of_mem isInteger lower upper]
    exact iff_of_true listed (by simp [IdDrops])
  | eq =>
    obtain ⟨isInteger, lower, upper⟩ := usable
    rw [holds_eq_iff isInteger] at satisfied
    rw [IndexMap.cursorFilterId_of_mem isInteger lower upper]
    have fits : wrapInt32 (argv.int64 + 1) = argv.int64 + 1 :=
      wrapInt32_of_mem (by omega) (by omega)
    have kept :=
      IndexMap.mem_intersect_of_window listed satisfied.ge
        (show row < wrapInt32 (argv.int64 + 1) by omega)
    exact iff_of_true kept (by simp [IdDrops])
  | gt =>
    obtain ⟨isInteger, lower, upper⟩ := usable
    rw [holds_gt_iff isInteger] at satisfied
    rw [IndexMap.cursorFilterId_of_mem isInteger lower upper]
    have fits : wrapInt32 (argv.int64 + 1) = argv.int64 + 1 :=
      wrapInt32_of_mem (by omega) (by omega)
    have kept :=
      IndexMap.mem_intersect_of_window listed
        (show wrapInt32 (argv.int64 + 1) ≤ row by omega) inside.2
    exact iff_of_true kept (by simp [IdDrops])
  | ge =>
    obtain ⟨isInteger, lower, upper⟩ := usable
    rw [holds_ge_iff isInteger] at satisfied
    rw [IndexMap.cursorFilterId_of_mem isInteger lower upper]
    have kept := IndexMap.mem_intersect_of_window listed satisfied inside.2
    exact iff_of_true kept (by simp [IdDrops])
  | lt =>
    obtain ⟨isInteger, lower, upper⟩ := usable
    rw [holds_lt_iff isInteger] at satisfied
    rw [IndexMap.cursorFilterId_of_mem isInteger lower upper]
    have kept := IndexMap.mem_intersect_of_window listed inside.1 satisfied
    exact iff_of_true kept (by simp [IdDrops])
  | le =>
    obtain ⟨isInteger, lower, upper⟩ := usable
    rw [holds_le_iff isInteger] at satisfied
    rw [IndexMap.cursorFilterId_of_mem isInteger lower upper]
    by_cases largest : argv.int64 = 2 ^ 31 - 1
    · -- The incremented operand wraps to the smallest row number.
      have wrapped : wrapInt32 (argv.int64 + 1) = -2 ^ 31 := by
        rw [largest]
        decide
      have kind := IndexMap.covertIfData_indexType map
      simp only [IndexMap.filterIdSwitch, wrapped]
      rw [IndexMap.mem_intersect_of_inverted (by decide)]
      simp only [listed, IdDrops, largest, true_and, reduceCtorEq, false_and, false_or, ← kind]
      cases map.covertIfData.indexType <;> simp
    · have fits : wrapInt32 (argv.int64 + 1) = argv.int64 + 1 :=
        wrapInt32_of_mem (by omega) (by omega)
      have kept :=
        IndexMap.mem_intersect_of_window listed inside.1
          (show row < wrapInt32 (argv.int64 + 1) by omega)
      exact iff_of_true kept (by simp only [IdDrops, largest]; simp)

theorem keeps_iff_not_staleWindow (member : row ∈ map.contents)
    {matched : Int → Prop} (rowMatched : matched row) :
    map.Keeps (fun row => row < map.end_ ∧ matched row) row ↔ ¬ StaleWindow map row matched := by
  cases kind : map.indexType with
  | id =>
    rw [IndexMap.contents_range kind, mem_rowRange] at member
    simp [IndexMap.Keeps, StaleWindow, kind, member.2, rowMatched]
  | outerIndex =>
    have listEnd := valid.list_end kind
    simp only [IndexMap.Keeps, StaleWindow, kind, true_and, listEnd,
      IndexMap.contents_list kind, rowMatched, and_true]
    constructor
    · rintro (before | none) ⟨beyond, other, listed, found⟩
      · omega
      · exact none other listed found
    · intro fresh
      by_cases before : row < map.rowIndex.length
      · exact Or.inl before
      · exact Or.inr fun other listed found => fresh ⟨by omega, other, listed, found⟩

/-- A satisfying row gets through the filter of timestamps unless it is dropped. -/
theorem mem_filterTS_iff {times : List (Fin (2 ^ 64))} (ascending : Ascending times)
    (size : times.length = table.rowCount) {op : ConstraintOp} {argv : SqliteValue}
    (usable : UsableOperand (fitsColumn .ts) op argv) (member : row ∈ map.contents) (satisfied :
      Holds (some (2 ^ 64 - 1)) op argv (queueAt times row).val) :
    row ∈ (map.filterTS op argv times).contents ↔ ¬ TsDrops times op map row := by
  have inside := valid.mem_contents member
  have bounded : (table.rowCount : Int) ≤ invalidInt32 := by
    have := table.rowCount_lt
    simp only [invalidInt32]
    omega
  -- Rows before a row beyond the window have a timestamp up to its own.
  have staleIff : ∀ v, queueAt times row ≤ v →
    (StaleWindow map row (fun other => queueAt times other ≤ v) ↔
      StaleWindow map row fun _ => True) := by
    intro v rowLe
    constructor
    · rintro ⟨isList, beyond, other, listed, before, _⟩
      exact ⟨isList, beyond, other, listed, before, trivial⟩
    · rintro ⟨isList, beyond, other, listed, before, _⟩
      have lower := (valid.list_rows other listed).1
      exact ⟨isList, beyond, other, listed, before,
        (queueAt_mono ascending lower (by omega)).trans rowLe⟩
  cases op with
  | isNot => exact usable.elim
  | other code => exact usable.elim
  | ne => exact iff_of_true member (by simp [TsDrops])
  | isNull => exact iff_of_true member (by simp [TsDrops])
  | isNotNull =>
    have notNull : queueAt times row ≠ ⊤ := by
      intro isTop
      rw [isTop] at satisfied
      exact satisfied rfl
    refine iff_of_true ?_ (by simp [TsDrops])
    simp only [IndexMap.filterTS]
    rw [IndexMap.contents_removeNullElements valid]
    split_ifs
    · exact List.mem_filter.2 ⟨member, by simpa using notNull⟩
    · apply mem_append_right
      exact List.mem_filter.2 ⟨mem_rowRange.2 (by omega), by simpa using notNull⟩
  | eq =>
    obtain ⟨isInteger, lower, upper⟩ := usable
    have value := toUnsigned_of_mem lower (show argv.int64 < 2 ^ 64 by omega)
    rw [holds_eq_iff isInteger] at satisfied
    have equal : queueAt times row = toUnsigned 64 argv.int64 := by
      apply Fin.ext
      omega
    simp only [IndexMap.filterTS]
    rw [IndexMap.mem_intersectabcEqual_iff valid ascending,
      keeps_iff_not_staleWindow valid member equal]
    simp [member, TsDrops, equal]
  | gt =>
    obtain ⟨isInteger, lower, upper⟩ := usable
    have value := toUnsigned_of_mem lower (show argv.int64 < 2 ^ 64 by omega)
    rw [holds_gt_iff isInteger] at satisfied
    refine iff_of_true ?_ (by simp [TsDrops])
    simp only [IndexMap.filterTS]
    rw [IndexMap.mem_intersectGreaterEqual_iff valid ascending bounded]
    refine ⟨member, Or.inl fun _ => ?_⟩
    rw [Fin.le_def, Fin.val_add_one_of_lt' (by omega)]
    omega
  | ge =>
    obtain ⟨isInteger, lower, upper⟩ := usable
    have value := toUnsigned_of_mem lower (show argv.int64 < 2 ^ 64 by omega)
    rw [holds_ge_iff isInteger] at satisfied
    refine iff_of_true ?_ (by simp [TsDrops])
    simp only [IndexMap.filterTS]
    rw [IndexMap.mem_intersectGreaterEqual_iff valid ascending bounded]
    refine ⟨member, Or.inl fun _ => ?_⟩
    rw [Fin.le_def]
    omega
  | lt =>
    obtain ⟨isInteger, lower, upper⟩ := usable
    have value := toUnsigned_of_mem lower (show argv.int64 < 2 ^ 64 by omega)
    rw [holds_lt_iff isInteger] at satisfied
    have rowLe : queueAt times row ≤ toUnsigned 64 argv.int64 := by
      rw [Fin.le_def]
      omega
    simp only [IndexMap.filterTS]
    rw [IndexMap.mem_intersectLessEqual_iff valid ascending,
      keeps_iff_not_staleWindow valid member rowLe, staleIff _ rowLe]
    simp [member, TsDrops]
  | le =>
    obtain ⟨isInteger, lower, upper⟩ := usable
    have value := toUnsigned_of_mem lower (show argv.int64 < 2 ^ 64 by omega)
    rw [holds_le_iff isInteger] at satisfied
    have rowLe : queueAt times row ≤ toUnsigned 64 argv.int64 + 1 := by
      rw [Fin.le_def, Fin.val_add_one_of_lt' (by omega)]
      omega
    simp only [IndexMap.filterTS]
    rw [IndexMap.mem_intersectLessEqual_iff valid ascending,
      keeps_iff_not_staleWindow valid member rowLe, staleIff _ rowLe]
    simp [member, TsDrops]

end

theorem mixSatisfies_of_holds {width : Nat} {op : ConstraintOp} {argv : SqliteValue}
    {fits : Int → Prop} (usable : UsableOperand fits op argv) {value cell : Fin (2 ^ width)}
    (same : fits argv.int64 → (value.val : Int) = argv.int64)
    (satisfied : Holds (some (2 ^ width - 1)) op argv cell.val) :
    IndexMap.mixSatisfies op value cell := by
  cases op with
  | isNot => exact usable.elim
  | other code => exact usable.elim
  | isNull =>
    simp only [Holds, Option.some.injEq] at satisfied
    exact (val_eq_top_iff cell).1 satisfied.symm
  | isNotNull =>
    intro isTop
    simp only [Holds, ne_eq, Option.some.injEq] at satisfied
    exact satisfied ((val_eq_top_iff cell).2 isTop).symm
  | eq =>
    have equal := same usable.2
    rw [holds_eq_iff usable.1] at satisfied
    exact Fin.ext (by omega)
  | ne =>
    have equal := same usable.2
    rw [holds_ne_iff usable.1] at satisfied
    rintro rfl
    omega
  | gt =>
    have equal := same usable.2
    rw [holds_gt_iff usable.1] at satisfied
    exact Fin.lt_def.2 (by omega)
  | ge =>
    have equal := same usable.2
    rw [holds_ge_iff usable.1] at satisfied
    exact Fin.le_def.2 (by omega)
  | lt =>
    have equal := same usable.2
    rw [holds_lt_iff usable.1] at satisfied
    exact Fin.lt_def.2 (by omega)
  | le =>
    have equal := same usable.2
    rw [holds_le_iff usable.1] at satisfied
    exact Fin.le_def.2 (by omega)

variable {bound : Bound SchedIndex}

theorem mem_filterStep_iff (valid : IndexMap.Valid table.rowCount map)
    (ascending : Ascending table.timeStamps) (usable : Usable bound)
    (member : row ∈ map.contents) (satisfied : table.Satisfies bound row) :
    row ∈ (table.filterStep map bound).contents ↔ ¬ table.Drops map bound row := by
  obtain ⟨⟨col, op, support⟩, argv⟩ := bound
  obtain ⟨isFiltered, operand⟩ := usable
  have castSize : ∀ {T : Type} {column : List T}, column.length = table.rowCount →
    (column.length : Int) = table.rowCount := by
    intro T column size
    exact_mod_cast size
  have fits32 : 0 ≤ argv.int64 ∧ argv.int64 < 2 ^ 32 → ((operand32 argv).val : Int) = argv.int64 :=
    fun fits => operand32_of_mem fits.1 fits.2
  have fits64 : 0 ≤ argv.int64 ∧ argv.int64 < 2 ^ 63 → ((operand64 argv).val : Int) = argv.int64 :=
    fun fits => operand64_of_mem fits.1 fits.2
  cases col with
  | id => exact mem_cursorFilterId_iff valid operand member satisfied
  | ts => exact mem_filterTS_iff valid ascending table.timeStamps_size operand member satisfied
  | dur =>
    exact IndexMap.mem_mixRange_of_satisfies valid (castSize table.durs_size)
      member (mixSatisfies_of_holds operand fits64 satisfied)
  | cpu =>
    exact IndexMap.mem_mixRange_of_satisfies valid (castSize table.cpus_size)
      member (mixSatisfies_of_holds operand fits32 satisfied)
  | internalTid =>
    exact IndexMap.mem_mixRange_of_satisfies valid (castSize table.internalTids_size) member
      (mixSatisfies_of_holds operand fits32 satisfied)
  | internalPid =>
    exact IndexMap.mem_mixRange_of_satisfies valid (castSize table.internalPids_size) member
      (mixSatisfies_of_holds operand fits32 satisfied)
  | type => simp [filtered] at isFiltered
  | tsEnd => simp [filtered] at isFiltered
  | endState => simp [filtered] at isFiltered
  | priority => simp [filtered] at isFiltered
  | argSetId => simp [filtered] at isFiltered

theorem filterStep_subset (valid : IndexMap.Valid table.rowCount map)
    (data : map.hasData = true) (bound : Bound SchedIndex)
    (member : row ∈ (table.filterStep map bound).contents) : row ∈ map.contents := by
  unfold filterStep at member
  cases col : bound.1.col <;> rw [col] at member <;> first
    | exact member
    | exact IndexMap.cursorFilterId_subset valid member
    | exact IndexMap.filterTS_subset valid data member
    | exact IndexMap.mixRange_subset valid _ _ _ data member

theorem filterStep_hasData (data : map.hasData = true) (bound : Bound SchedIndex) :
    (table.filterStep map bound).hasData = true := by
  unfold filterStep
  cases bound.1.col <;> first
    | exact data
    | exact IndexMap.cursorFilterId_hasData data _ _ _
    | exact IndexMap.filterTS_hasData data _ _ _
    | simp [IndexMap.hasData]

theorem hasData_of_drops (drops : table.Drops map bound row) :
    (table.filterStep map bound).hasData = true := by
  unfold Drops at drops
  unfold filterStep
  cases col : bound.1.col <;> rw [col] at drops
  case id =>
    rcases drops with ⟨isNotNull, notInteger, _⟩ | ⟨isLe, _⟩
    · simp [IndexMap.cursorFilterId, notInteger, IndexMap.hasData]
    · by_cases isInteger : bound.2.type = .integer
      · simp [IndexMap.cursorFilterId, isInteger, isLe, IndexMap.filterIdSwitch, IndexMap.hasData]
      · simp [IndexMap.cursorFilterId, isInteger, IndexMap.hasData]
  case ts =>
    rcases drops with ⟨isEq, _⟩ | ⟨isLt | isLe, _⟩
    · simp [isEq, IndexMap.filterTS, IndexMap.intersectabcEqual, IndexMap.hasData]
    · simp [isLt, IndexMap.filterTS, IndexMap.intersectLessEqual, IndexMap.hasData]
    · simp [isLe, IndexMap.filterTS, IndexMap.intersectLessEqual, IndexMap.hasData]
  all_goals first
    | exact drops.elim
    | simp [IndexMap.hasData]

end Step

section Loop

variable {table : SchedSlice} {map : IndexMap}

theorem not_mem_run_of_lost (valid : IndexMap.Valid table.rowCount map)
    (data : map.hasData = true) (constraints : List (Bound SchedIndex))
    {row : Int} (lost : row ∉ map.contents) :
    row ∉ (run table.filterStep map constraints).contents := by
  induction constraints generalizing map with
  | nil => exact lost
  | cons bound rest induction =>
    exact induction (valid_filterStep valid bound) (filterStep_hasData data bound)
      (fun member => lost (filterStep_subset valid data bound member))

theorem mem_run_iff (ascending : Ascending table.timeStamps)
    (valid : IndexMap.Valid table.rowCount map) {constraints : List (Bound SchedIndex)}
    (usable : ∀ bound ∈ constraints, Usable bound) {row : Int} (member : row ∈ map.contents)
    (satisfied : ∀ bound ∈ constraints, table.Satisfies bound row) :
    row ∈ (run table.filterStep map constraints).contents ↔ EachStep table.filterStep
      (fun map bound => ¬ table.Drops map bound row) map constraints := by
  induction constraints generalizing map with
  | nil => simpa using member
  | cons bound rest induction =>
    have atHead :=
      mem_filterStep_iff valid ascending (usable bound mem_cons_self) member
        (satisfied bound mem_cons_self)
    by_cases drops : table.Drops map bound row
    · -- A lost row stays lost, and the step condition fails here.
      have lost : row ∉ (table.filterStep map bound).contents := fun kept => atHead.1 kept drops
      apply iff_of_false
      · exact not_mem_run_of_lost (valid_filterStep valid bound) (hasData_of_drops drops) rest lost
      · exact fun steps => steps.1 drops
    · rw [run_cons, eachStep_cons, induction (valid_filterStep valid bound)
        (fun later inRest => usable later (mem_cons_of_mem _ inRest))
        (atHead.2 drops)
        (fun later inRest => satisfied later (mem_cons_of_mem _ inRest))]
      exact ⟨fun steps => ⟨drops, steps⟩, fun steps => steps.2⟩

/--
The loop is defined and every row that satisfies all constraints is visited
exactly when no step of the loop searches outside the column or drops such a
row.
-/
theorem filter_complete_iff (table : SchedSlice) (ascending : Ascending table.timeStamps)
    (constraints : List (Bound SchedIndex)) (usable : ∀ bound ∈ constraints, Usable bound)
    (orderBys : List (OrderBy SchedIndex)) :
    (table.FilterDefined constraints ∧ ∀ row, table.SatisfiesAll constraints row →
      row ∈ (table.filter constraints orderBys).rows) ↔
      table.FilterDefined constraints ∧ EachStep table.filterStep (fun map bound =>
        ∀ row, table.SatisfiesAll constraints row → ¬ table.Drops map bound row)
        (ofRange 0 table.rowCount) constraints := by
  apply and_congr_right'
  have valid := IndexMap.valid_ofRange (table.rowCount : Int)
  simp only [eachStep_forall]
  apply forall_congr'
  intro row
  apply forall_congr'
  intro satisfied
  obtain ⟨lower, upper, each⟩ := satisfied
  have nonempty : table.rowCount ≠ 0 := by omega
  have member : row ∈ (ofRange 0 (table.rowCount : Int)).contents := by
    rw [IndexMap.contents_ofRange]
    exact mem_rowRange.2 ⟨lower, upper⟩
  rw [filter, if_neg nonempty,
    IndexMap.mem_rows_applyOrderBys (valid_run valid constraints).visitable]
  exact mem_run_iff ascending valid usable member each

def twoSlices : SchedSlice where
  rowCount := 2
  timeStamps := [10, 20]
  durs := [10, 10]
  cpus := [5, 5]
  internalTids := [1, 2]
  internalPids := [1, 1]
  rowCount_lt := by decide
  timeStamps_size := rfl
  durs_size := rfl
  cpus_size := rfl
  internalTids_size := rfl
  internalPids_size := rfl

/-- The constraint `cpu op value`. -/
def cpuConstraint (op : ConstraintOp) (value : Int) : Bound SchedIndex :=
  (⟨.cpu, op, false⟩, SqliteValue.ofInt value)

theorem filter_complete_iff_cpu_eq :
    Ascending twoSlices.timeStamps ∧ twoSlices.FilterDefined [cpuConstraint .eq 5] ∧
      ∀ row, twoSlices.SatisfiesAll [cpuConstraint .eq 5] row →
        row ∈ (twoSlices.filter [cpuConstraint .eq 5] []).rows := by
  refine ⟨by decide, ?_⟩
  have complete :=
    filter_complete_iff twoSlices (by decide) [cpuConstraint .eq 5]
      (by simp [Usable, UsableOperand, filtered, fitsColumn, cpuConstraint,
        SqliteValue.ofInt])
      []
  apply complete.2
  refine ⟨Or.inr ⟨by simp [StepDefined, cpuConstraint], trivial⟩, ?_, trivial⟩
  intro row _
  simp [Drops, cpuConstraint, IndexMap.MixDrops, IndexMap.MissedByScondCheck]

/-- `cpu >= 3` as the first constraint: both slices satisfy it, none is visited. -/
theorem filter_incomplete_cpu_ge : Ascending twoSlices.timeStamps ∧ Usable (cpuConstraint .ge 3) ∧
    twoSlices.FilterDefined [cpuConstraint .ge 3] ∧
    twoSlices.SatisfiesAll [cpuConstraint .ge 3] 0 ∧
    0 ∉ (twoSlices.filter [cpuConstraint .ge 3] []).rows := by
  refine ⟨by decide, ?_, Or.inr ⟨by simp [StepDefined, cpuConstraint], trivial⟩, ?_, by decide⟩
  · simp [Usable, UsableOperand, filtered, fitsColumn, cpuConstraint, SqliteValue.ofInt]
  · refine ⟨by decide, by decide, ?_⟩
    intro bound member
    rw [List.mem_singleton.1 member]
    show Holds (some (2 ^ 32 - 1)) .ge (SqliteValue.ofInt 3) 5
    decide

end Loop

end SchedSlice

end SysAnalyzer.Table
