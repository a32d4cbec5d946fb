import SysAnalyzer.Table.IndexMapFilters

/-!
# The part of a cursor that all tables share

`TableBase` supplies the filter on the row number that most tables use, and
the planning step `BestIndex`, which reports to SQLite the constraints it need
not check again (`omit`) and whether the rows come out in the demanded order.

The cost estimates are floating point and are left out.  They reach the
modelled part in one place: an equality on a sorted column divides the
estimated row count by its logarithm.  That quotient is the parameter
`divLog2`; nothing is assumed about it.
-/

namespace SysAnalyzer.Table

open List

namespace IndexMap

/-- `TableBase::Cursor::FilterId`. -/
def cursorFilterId (rowCount : Int) (op : ConstraintOp) (argv : SqliteValue)
    (map : IndexMap) : IndexMap :=
  if argv.type ≠ .integer then map.intersect 0 0
  else map.covertIfData.filterIdSwitch rowCount op (wrapInt32 argv.int64)

section Conversion

variable {rowCount : Int} {map : IndexMap}

theorem valid_covertIfData (valid : Valid rowCount map) : Valid rowCount map.covertIfData := by
  unfold covertIfData
  split_ifs with data
  · exact valid_covertToIndexMap valid data
  · exact valid

theorem contents_covertIfData (valid : Valid rowCount map) :
    map.covertIfData.contents = map.contents := by
  unfold covertIfData
  split_ifs with data
  · rw [contents_list (by simp), covertToIndexMap_rowIndex valid data]
  · rfl

theorem covertIfData_indexType (map : IndexMap) :
    map.covertIfData.indexType = .id ↔ map.indexType = .id ∧ map.hasData = false := by
  unfold covertIfData
  split_ifs with data
  · simp [data]
  · simp [data]

section

variable (valid : Valid rowCount map)
include valid

theorem valid_filterIdSwitch (upper : Int) (op : ConstraintOp) (v : Int) :
    Valid rowCount (map.filterIdSwitch upper op v) := by
  unfold filterIdSwitch
  split <;> first | exact valid_intersect valid _ _ | exact valid

theorem valid_filterId (op : ConstraintOp) (argv : SqliteValue) :
    Valid rowCount (map.filterId op argv) := by
  unfold filterId
  split_ifs with notInteger
  · exact valid_intersect valid 0 0
  · exact valid_filterIdSwitch (valid_covertIfData valid) _ _ _

theorem valid_cursorFilterId (bound : Int) (op : ConstraintOp) (argv : SqliteValue) :
    Valid rowCount (map.cursorFilterId bound op argv) := by
  unfold cursorFilterId
  split_ifs with notInteger
  · exact valid_intersect valid 0 0
  · exact valid_filterIdSwitch (valid_covertIfData valid) _ _ _

theorem valid_filterTS {times : List (Fin (2 ^ 64))} (size : (times.length : Int) = rowCount)
    (op : ConstraintOp) (argv : SqliteValue) : Valid rowCount (map.filterTS op argv times) := by
  unfold filterTS
  cases op with
  | isNotNull => exact valid_removeNullElements valid size
  | eq => exact valid_intersect valid _ _
  | gt => exact valid_intersect valid _ _
  | ge => exact valid_intersect valid _ _
  | le => exact valid_intersect valid _ _
  | lt => exact valid_intersect valid _ _
  | ne => exact valid
  | isNot => exact valid
  | isNull => exact valid
  | other code => exact valid

end

variable {argv : SqliteValue}

theorem cursorFilterId_of_mem (isInteger : argv.type = .integer)
    (lower : -2 ^ 31 ≤ argv.int64) (upper : argv.int64 < 2 ^ 31)
    (bound : Int) (op : ConstraintOp) (map : IndexMap) :
    map.cursorFilterId bound op argv = map.covertIfData.filterIdSwitch bound op argv.int64 := by
  simp [cursorFilterId, isInteger, wrapInt32_of_mem lower upper]

variable {row : Int}

theorem mem_intersect_of_window {start stop : Int} (member : row ∈ map.contents)
    (lower : start ≤ row) (upper : row < stop) : row ∈ (map.intersect start stop).contents :=
  (mem_intersect_iff map start stop row).2 ⟨member, Or.inl ⟨lower, upper⟩⟩

theorem mem_intersect_of_inverted {start stop : Int} (inverted : stop ≤ start) :
    row ∈ (map.intersect start stop).contents ↔
      row ∈ map.contents ∧ map.indexType = .outerIndex := by
  have noRow : ∀ other : Int, ¬ (start ≤ other ∧ other < stop) := by
    intro other
    omega
  simp [mem_intersect_iff, Keeps, noRow]

variable {op : ConstraintOp}

theorem filterIdSwitch_subset {upper : Int} {v : Int}
    (member : row ∈ (map.filterIdSwitch upper op v).contents) : row ∈ map.contents := by
  unfold filterIdSwitch at member
  split at member <;> first | exact intersect_subset _ _ member | exact member

theorem filterIdSwitch_hasData
    (data : map.hasData = true) (upper : Int) (op : ConstraintOp) (v : Int) :
    (map.filterIdSwitch upper op v).hasData = true := by
  unfold filterIdSwitch
  split <;> first | exact data | simp [hasData]

theorem covertIfData_hasData (data : map.hasData = true) : map.covertIfData.hasData = true := by
  simp [covertIfData, data]
  simp [hasData, covertToIndexMap_empty data]

theorem cursorFilterId_subset (valid : Valid rowCount map) {bound : Int}
    (member : row ∈ (map.cursorFilterId bound op argv).contents) : row ∈ map.contents := by
  unfold cursorFilterId at member
  split_ifs at member with notInteger
  · exact intersect_subset 0 0 member
  · rw [← contents_covertIfData valid]
    exact filterIdSwitch_subset member

theorem cursorFilterId_hasData (data : map.hasData = true) (bound : Int) (op : ConstraintOp)
    (argv : SqliteValue) : (map.cursorFilterId bound op argv).hasData = true := by
  unfold cursorFilterId
  split_ifs with notInteger
  · simp [hasData]
  · exact filterIdSwitch_hasData (covertIfData_hasData data) _ _ _

theorem filterTS_subset (valid : Valid rowCount map) (data : map.hasData = true)
    {times : List (Fin (2 ^ 64))} (member : row ∈ (map.filterTS op argv times).contents) :
    row ∈ map.contents := by
  unfold filterTS at member
  split at member <;> first
    | exact intersect_subset _ _ member
    | exact removeNullElements_subset valid times data member
    | exact member

theorem filterTS_hasData (data : map.hasData = true) (times : List (Fin (2 ^ 64)))
    (op : ConstraintOp) (argv : SqliteValue) : (map.filterTS op argv times).hasData = true := by
  unfold filterTS
  split <;> first
    | exact data
    | exact removeNullElements_hasData times data
    | exact congrArg not (intersect_empty _ _ map)

end Conversion

end IndexMap

/-! ## Planning -/

/-- `CanFilterId`: the estimate after a filter on the row number. -/
def canFilterId (op : ConstraintOp) (rowCount : Nat) : Option Nat :=
  match op with
  | .eq => some 1
  | .gt | .ge | .le | .lt => some (rowCount / 2)
  | _ => none

/-- `CanFilterSorted`: the estimate after a filter on a sorted column. -/
def canFilterSorted (divLog2 : Nat → Nat) (op : ConstraintOp) (rowCount : Nat) : Option Nat :=
  match op with
  | .eq => some (divLog2 rowCount)
  | .gt | .ge | .le | .lt => some (rowCount / 2)
  | _ => none

/-- How a table's planner treats a column. -/
inductive ColumnKind where
  | rowNumber
  | sorted
  | plain

/-- The estimate after one constraint, when the table filters it exactly. -/
def estimateAfter (divLog2 : Nat → Nat) (kind : ColumnKind)
    (op : ConstraintOp) (rowCount : Nat) : Option Nat :=
  match kind with
  | .rowNumber => canFilterId op rowCount
  | .sorted => canFilterSorted divLog2 op rowCount
  | .plain => none

/--
`FilterByConstraint`: mark the constraints the table filters exactly, until the
estimated row count drops to one.
-/
def filterByConstraint {Column : Type} (divLog2 : Nat → Nat) (kind : Column → ColumnKind) :
    Nat → List (Constraint Column) → List (Constraint Column)
  | _, [] => []
  | rowCount, c :: rest =>
    if rowCount ≤ 1 then c :: rest
    else
      match estimateAfter divLog2 (kind c.col) c.op rowCount with
      | some estimate =>
        { c with isSupport := true } :: filterByConstraint divLog2 kind estimate rest
      | none => c :: filterByConstraint divLog2 kind rowCount rest

/-- A constraint as `AddConstraint` enters it. -/
def unmark {Column : Type} (c : Constraint Column) : Constraint Column :=
  { c with isSupport := false }

/--
The `omit` flags of `BestIndex`.  A table with at most one row is planned
without looking at the constraints.
-/
def bestIndexOmit {Column : Type} (divLog2 : Nat → Nat)
    (kind : Column → ColumnKind) (rowCount : Nat)
    (constraints : List (Constraint Column)) : List Bool :=
  let constraints := constraints.map unmark
  if rowCount = 0 ∨ rowCount = 1 then constraints.map Constraint.isSupport
  else (filterByConstraint divLog2 kind rowCount constraints).map Constraint.isSupport

/-- `isOrdered` of `EstimateFilterCost`, which becomes `orderByConsumed`. -/
def isOrdered {Column : Type} (sortable : Column → Bool) (rowCount : Nat)
    (orderBys : List (OrderBy Column)) : Bool :=
  if rowCount = 0 ∨ rowCount = 1 then false
  else orderBys.all fun term => sortable term.iColumn

theorem estimateAfter_isSome {divLog2 : Nat → Nat} {kind : ColumnKind} {op : ConstraintOp}
    {rowCount estimate : Nat} (exact : estimateAfter divLog2 kind op rowCount = some estimate) :
    kind ≠ .plain ∧ (op = .eq ∨ op = .gt ∨ op = .ge ∨ op = .le ∨ op = .lt) := by
  cases kind <;> cases op <;> simp_all [estimateAfter, canFilterId, canFilterSorted]

section Marks

variable {Column : Type} (divLog2 : Nat → Nat) (kind : Column → ColumnKind)

theorem filterByConstraint_length (rowCount : Nat) (constraints : List (Constraint Column)) :
    (filterByConstraint divLog2 kind rowCount constraints).length = constraints.length := by
  induction constraints generalizing rowCount with
  | nil => rfl
  | cons c rest induction =>
    rw [filterByConstraint]
    split_ifs
    · rfl
    · split <;> simp [induction]

theorem filterByConstraint_append (rowCount : Nat) (first second : List (Constraint Column)) :
    ∃ rest, filterByConstraint divLog2 kind rowCount (first ++ second) =
      filterByConstraint divLog2 kind rowCount first ++ rest := by
  induction first generalizing rowCount with
  | nil => exact ⟨_, rfl⟩
  | cons c tail induction =>
    rw [cons_append, filterByConstraint, filterByConstraint]
    split_ifs
    · exact ⟨second, rfl⟩
    · split
      · obtain ⟨rest, same⟩ := induction _
        exact ⟨rest, by rw [same]; rfl⟩
      · obtain ⟨rest, same⟩ := induction rowCount
        exact ⟨rest, by rw [same]; rfl⟩

/-- The marks `BestIndex` reports: at most a comparison with an exact filter. -/
def FlaggedExactly (entry : Constraint Column × Bool) : Prop :=
  entry.2 = true → kind entry.1.col ≠ .plain ∧
    (entry.1.op = .eq ∨ entry.1.op = .gt ∨ entry.1.op = .ge ∨ entry.1.op = .le ∨ entry.1.op = .lt)

theorem filterByConstraint_flaggedExactly (rowCount : Nat) (constraints : List (Constraint Column))
    (unmarked : ∀ c ∈ constraints, c.isSupport = false) :
    ∀ entry ∈ constraints.zip ((filterByConstraint divLog2 kind rowCount constraints).map
      Constraint.isSupport), FlaggedExactly kind entry := by
  have unmarkedZip : ∀ rest : List (Constraint Column), (∀ c ∈ rest, c.isSupport = false) →
    ∀ entry ∈ rest.zip (rest.map Constraint.isSupport), FlaggedExactly kind entry := by
    intro rest none entry member marked
    obtain ⟨index, inside, rfl⟩ := List.mem_iff_getElem.1 member
    simp only [length_zip, length_map, min_self] at inside
    simp only [getElem_zip, getElem_map] at marked
    rw [none _ (getElem_mem inside)] at marked
    cases marked
  induction constraints generalizing rowCount with
  | nil => simp
  | cons c rest induction =>
    have restUnmarked : ∀ later ∈ rest, later.isSupport = false :=
      fun later inRest => unmarked later (mem_cons_of_mem _ inRest)
    rw [filterByConstraint]
    split_ifs with few
    · exact unmarkedZip (c :: rest) unmarked
    · split
      · next estimate found =>
          intro entry member
          rw [map_cons, zip_cons_cons, mem_cons] at member
          rcases member with rfl | later
          · exact fun _ => estimateAfter_isSome found
          · exact induction _ restUnmarked entry later
      · intro entry member
        rw [map_cons, zip_cons_cons, mem_cons] at member
        rcases member with rfl | later
        · intro marked
          simp [unmarked c mem_cons_self] at marked
        · exact induction _ restUnmarked entry later

theorem bestIndexOmit_length (rowCount : Nat) (constraints : List (Constraint Column)) :
    (bestIndexOmit divLog2 kind rowCount constraints).length = constraints.length := by
  unfold bestIndexOmit
  split_ifs
  · simp
  · simp [filterByConstraint_length]

theorem bestIndexOmit_append (rowCount : Nat) (first second : List (Constraint Column)) :
    ∃ rest, bestIndexOmit divLog2 kind rowCount (first ++ second) =
      bestIndexOmit divLog2 kind rowCount first ++ rest := by
  unfold bestIndexOmit
  split_ifs
  · exact ⟨_, by rw [map_append, map_append]⟩
  · simp only [map_append]
    obtain ⟨rest, same⟩ :=
      filterByConstraint_append divLog2 kind rowCount (first.map unmark) (second.map unmark)
    exact ⟨rest.map Constraint.isSupport, by rw [same, map_append]⟩

theorem bestIndexOmit_flaggedExactly (rowCount : Nat) (constraints : List (Constraint Column)) :
    ∀ entry ∈ constraints.zip (bestIndexOmit divLog2 kind rowCount constraints),
      FlaggedExactly kind entry := by
  intro entry member marked
  unfold bestIndexOmit at member
  split_ifs at member with few
  · have isFalse := (of_mem_zip member).2
    simp only [map_map, mem_map, Function.comp_apply] at isFalse
    obtain ⟨c, _, unset⟩ := isFalse
    rw [marked] at unset
    cases unset
  · have reset : (unmark entry.1, entry.2) ∈ (constraints.map unmark).zip
      ((filterByConstraint divLog2 kind rowCount
        (constraints.map unmark)).map Constraint.isSupport) := by
      rw [zip_map_left]
      exact List.mem_map.2 ⟨entry, member, rfl⟩
    have unmarked : ∀ c ∈ constraints.map unmark, c.isSupport = false := by
      intro c inside
      obtain ⟨source, _, rfl⟩ := List.mem_map.1 inside
      rfl
    exact filterByConstraint_flaggedExactly divLog2 kind rowCount _ unmarked
      (unmark entry.1, entry.2) reset marked

end Marks

end SysAnalyzer.Table
