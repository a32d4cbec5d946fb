import SysAnalyzer.Table.SchedSlice
import SysAnalyzer.Table.ThreadState

/-!
# The order in which a cursor visits its rows

When every ORDER BY term is on `id` or `ts`, `EstimateFilterCost` reports the
rows as ordered and SQLite does not sort them.  The cursor then visits its rows
in ascending or in descending row order: `SortBy` is called for every term,
last term first, so the direction of the first term is the one that stays.

For rows with different timestamps that is the demanded order.  Rows with equal
timestamps are told apart by the first `id` term, whose direction may differ.
-/

namespace SysAnalyzer.Table

open Foundation List

/-- The columns a cursor can order its rows by. -/
inductive SortKey where
  | id
  | ts
  deriving DecidableEq

section Compare

variable {Column : Type} (key : Column → Option SortKey)
variable (times : List (Fin (2 ^ 64)))

def compareCell (column : Column) (left right : Int) : Ordering :=
  match key column with
  | some .id => compare left right
  | some .ts => compare (queueAt times left) (queueAt times right)
  | none => .eq

def compareRows : List (OrderBy Column) → Int → Int → Ordering
  | [], _, _ => .eq
  | term :: rest, left, right =>
    let order := compareCell key times term.iColumn left right
    let directed := if term.desc then order.swap else order
    directed.then (compareRows rest left right)

def InOrder (orderBys : List (OrderBy Column)) (rows : List Int) : Prop :=
  rows.Pairwise fun left right => compareRows key times orderBys left right ≠ .gt

/-- The direction of the first `id` term, if there is one. -/
def tieDesc (orderBys : List (OrderBy Column)) : Option Bool :=
  (orderBys.find? fun term => key term.iColumn = some .id).map OrderBy.desc

/-- The first `id` term has the direction the cursor visits its rows in. -/
def TiesAgree (orderBys : List (OrderBy Column)) : Prop :=
  ∀ desc, tieDesc key orderBys = some desc →
    desc = IndexMap.finalDesc (fun column => (key column).isSome) orderBys

variable {key} {times}

theorem compareRows_swap (orderBys : List (OrderBy Column)) (left right : Int) :
    compareRows key times orderBys right left =
      (compareRows key times orderBys left right).swap := by
  have cellSwap : ∀ column, compareCell key times column right left =
    (compareCell key times column left right).swap := by
    intro column
    unfold compareCell
    split
    · exact Std.OrientedCmp.eq_swap
    · exact Std.OrientedCmp.eq_swap
    · rfl
  induction orderBys with
  | nil => rfl
  | cons term rest induction =>
    simp only [compareRows, cellSwap, induction, Ordering.swap_then]
    cases term.desc <;> simp

theorem compareRows_self (orderBys : List (OrderBy Column)) (row : Int) :
    compareRows key times orderBys row row = .eq := by
  induction orderBys with
  | nil => rfl
  | cons term rest induction =>
    have cellEq : compareCell key times term.iColumn row row = .eq := by
      unfold compareCell
      split <;> simp
    simp [compareRows, cellEq, induction]

variable {orderBys : List (OrderBy Column)} {right : Int}

variable {left : Int}

theorem compareRows_of_lt (sortable : ∀ term ∈ orderBys, (key term.iColumn).isSome = true)
    (rowsLt : left < right) (timesLt : queueAt times left < queueAt times right) :
    compareRows key times orderBys left right = if orderBys = [] then .eq
      else if IndexMap.finalDesc (fun column => (key column).isSome) orderBys then .gt
      else .lt := by
  cases orderBys with
  | nil => rfl
  | cons term rest =>
    have first := sortable term mem_cons_self
    have cellLt : compareCell key times term.iColumn left right = .lt := by
      unfold compareCell
      split
      · exact compare_lt_iff_lt.2 rowsLt
      · exact compare_lt_iff_lt.2 timesLt
      · next isNone => simp [isNone] at first
    have direction : IndexMap.finalDesc (fun column => (key column).isSome) (term :: rest) =
      term.desc := by
      simp [IndexMap.finalDesc, first]
    rw [compareRows, cellLt, direction]
    cases term.desc <;> simp

theorem compareRows_of_tie (orderBys : List (OrderBy Column)) (rowsLt : left < right)
    (tie : queueAt times left = queueAt times right) :
    compareRows key times orderBys left right = match tieDesc key orderBys with
      | none => .eq
      | some desc => if desc then .gt else .lt := by
  induction orderBys with
  | nil => rfl
  | cons term rest induction =>
    rw [compareRows, induction]
    cases isKey : key term.iColumn with
    | none => simp [compareCell, tieDesc, isKey]
    | some kind =>
      cases kind with
      | id =>
        have cellLt := compare_lt_iff_lt.2 rowsLt
        simp only [compareCell, isKey, cellLt, tieDesc]
        cases desc : term.desc <;> simp [isKey, desc]
      | ts => simp [compareCell, tieDesc, isKey, tie]

def visitedRows (key : Column → Option SortKey)
    (orderBys : List (OrderBy Column)) (rows : List Int) : List Int :=
  if IndexMap.finalDesc (fun column => (key column).isSome) orderBys then rows.reverse
  else rows

theorem compareRows_agrees (ascending : Ascending times)
    (sortable : ∀ term ∈ orderBys, (key term.iColumn).isSome = true)
    (lower : 0 ≤ left) (ordered : left ≤ right) (agree : TiesAgree key orderBys ∨
      (left < right → queueAt times left ≠ queueAt times right)) :
    if IndexMap.finalDesc (fun column => (key column).isSome) orderBys then
      compareRows key times orderBys right left ≠ .gt else
      compareRows key times orderBys left right ≠ .gt := by
  rcases ordered.eq_or_lt with rfl | rowsLt
  · split_ifs <;> simp [compareRows_self]
  · rw [compareRows_swap orderBys left right]
    rcases (queueAt_mono ascending lower ordered).eq_or_lt with tie | timesLt
    · have agreed : TiesAgree key orderBys :=
        agree.resolve_right fun distinct => distinct rowsLt tie
      rw [compareRows_of_tie orderBys rowsLt tie]
      unfold TiesAgree at agreed
      cases first : tieDesc key orderBys with
      | none => simp
      | some desc =>
        rw [← agreed desc first]
        cases desc <;> simp
    · rw [compareRows_of_lt sortable rowsLt timesLt]
      split_ifs <;> simp

theorem inOrder_visitedRows (ascending : Ascending times)
    (sortable : ∀ term ∈ orderBys, (key term.iColumn).isSome = true)
    {rows : List Int} (nonneg : ∀ row ∈ rows, 0 ≤ row)
    (ordered : rows.Pairwise (· ≤ ·)) (agree : TiesAgree key orderBys ∨
      ∀ left ∈ rows, ∀ right ∈ rows, left < right → queueAt times left ≠ queueAt times right) :
    InOrder key times orderBys (visitedRows key orderBys rows) := by
  have pairs : rows.Pairwise fun left right =>
    if IndexMap.finalDesc (fun column => (key column).isSome) orderBys
      then compareRows key times orderBys right left ≠ .gt
    else compareRows key times orderBys left right ≠ .gt := by
    refine List.Pairwise.imp_of_mem ?_ ordered
    intro left right leftIn rightIn le
    refine compareRows_agrees ascending sortable (nonneg left leftIn) le ?_
    exact agree.imp_right fun distinct => distinct left leftIn right rightIn
  unfold InOrder visitedRows
  split_ifs at pairs ⊢
  · exact pairwise_reverse.2 pairs
  · exact pairs

theorem tiesAgree_of_inOrder {rowCount : Int}
    (lower : 0 ≤ left) (rowsLt : left < right) (upper : right < rowCount)
    (tie : queueAt times left = queueAt times right) (inOrder : InOrder key times orderBys
      (visitedRows key orderBys (rowRange 0 rowCount))) : TiesAgree key orderBys := by
  have atRows : ∀ R : Int → Int → Prop, (rowRange 0 rowCount).Pairwise R → R left right := by
    intro R pairwise
    have atIndex :=
      pairwise_iff_getElem.1 pairwise left.toNat right.toNat
        (by rw [length_rowRange]; omega) (by rw [length_rowRange]; omega)
        (by omega)
    simpa [rowRange, show max left 0 = left by omega,
      show max right 0 = right by omega] using atIndex
  intro desc first
  have compared : compareRows key times orderBys left right = _ :=
    compareRows_of_tie orderBys rowsLt tie
  rw [first] at compared
  unfold InOrder visitedRows at inOrder
  split_ifs at inOrder with backwards
  · have wrong := atRows _ (pairwise_reverse.1 inOrder)
    rw [compareRows_swap orderBys left right, compared] at wrong
    cases desc <;> simp_all
  · have wrong := atRows _ inOrder
    rw [compared] at wrong
    cases desc <;> simp_all

/-- A column without ties: every timestamp is larger than the one before. -/
def WithoutTies (times : List (Fin (2 ^ 64))) : Prop := times.Pairwise (· < ·)

theorem WithoutTies.ne (distinct : WithoutTies times)
    (lower : 0 ≤ left) (rowsLt : left < right) (upper : right < times.length) :
    queueAt times left ≠ queueAt times right := by
  have strict :=
    pairwise_iff_getElem.1 distinct left.toNat right.toNat (by omega) (by omega) (by omega)
  rw [queueAt, queueAt, getD_eq_getElem _ _ (by omega), getD_eq_getElem _ _ (by omega)]
  exact strict.ne

theorem withoutTies_or_tie (ascending : Ascending times) :
    WithoutTies times ∨ ∃ left right : Int, 0 ≤ left ∧ left < right ∧ right < times.length ∧
      queueAt times left = queueAt times right := by
  by_cases tie : ∃ left right : Int, 0 ≤ left ∧ left < right ∧ right < times.length ∧
    queueAt times left = queueAt times right
  · exact Or.inr tie
  · left
    rw [WithoutTies, pairwise_iff_getElem]
    intro left right leftIn rightIn rowsLt
    refine lt_of_le_of_ne (pairwise_iff_getElem.1 ascending left right leftIn rightIn
      rowsLt) ?_
    intro equal
    refine tie ⟨left, right, by omega, by omega, by omega, ?_⟩
    simpa [queueAt, leftIn, rightIn] using equal

/--
A cursor that may stop with any of the row lists in `Reached`, all of them
ascending and the whole table among them, meets an ORDER BY list exactly when
its directions agree on ties or the table has none.
-/
theorem inOrder_iff (ascending : Ascending times)
    (sortable : ∀ term ∈ orderBys, (key term.iColumn).isSome = true)
    {Reached : List Int → Prop} (whole : Reached (rowRange 0 times.length))
    (ordered : ∀ rows, Reached rows → rows.Pairwise (· < ·) ∧
      ∀ row ∈ rows, 0 ≤ row ∧ row < times.length) :
    (∀ rows, Reached rows → InOrder key times orderBys (visitedRows key orderBys rows)) ↔
      TiesAgree key orderBys ∨ WithoutTies times := by
  constructor
  · intro always
    rcases withoutTies_or_tie ascending with
      distinct | ⟨left, right, lower, rowsLt, upper, tie⟩
    · exact Or.inr distinct
    · exact Or.inl (tiesAgree_of_inOrder lower rowsLt upper tie (always _ whole))
  · intro agree rows reached
    rcases ordered rows reached with ⟨pairwise, inside⟩
    refine inOrder_visitedRows ascending sortable
      (fun row member => (inside row member).1) (pairwise.imp le_of_lt) ?_
    refine agree.imp_right fun distinct left leftIn right rightIn rowsLt => ?_
    exact distinct.ne (inside left leftIn).1 rowsLt (inside right rightIn).2

theorem isOrdered_sortable {sortable : Column → Bool} {rowCount : Nat}
    (consumed : isOrdered sortable rowCount orderBys = true) :
    ∀ term ∈ orderBys, sortable term.iColumn = true := by
  unfold isOrdered at consumed
  split_ifs at consumed
  exact all_eq_true.1 consumed

end Compare

namespace ThreadState

def sortKey : ThreadStateIndex → Option SortKey
  | .id => some .id
  | .ts => some .ts
  | _ => none

theorem sortable_eq : sortable = fun column => (sortKey column).isSome := by
  funext column
  cases column <;> rfl

/-- No step of the loop appends a row that is not after every listed one. -/
def KeepsOrder (table : ThreadState) (constraints : List (Bound ThreadStateIndex)) : Prop :=
  EachPartial table.filterStep (fun map bound =>
    ¬ IndexMap.AppendsAgainst (· < ·) table.rowCount table.admitted map bound)
    (ofRange 0 table.rowCount) constraints

def Reached (table : ThreadState) (rows : List Int) : Prop :=
  ∃ constraints reached, table.KeepsOrder constraints ∧
    runPartial table.filterStep (ofRange 0 table.rowCount) constraints = some reached ∧
    rows = reached.contents

theorem Reached.ordered {table : ThreadState} {rows : List Int} (reached : table.Reached rows) :
    rows.Pairwise (· < ·) ∧ ∀ row ∈ rows, 0 ≤ row ∧ row < table.timeStamps.length := by
  rcases reached with ⟨constraints, map, keeps, run, rfl⟩
  have fresh := IndexMap.valid_ofRange (table.rowCount : Int)
  have rangeOrdered := rowRange_ascending 0 (table.rowCount : Int)
  constructor
  · exact (table.appendSpec.pairwise_iff rangeOrdered fresh rangeOrdered
      constraints).2 keeps constraints map (prefix_refl _) run
  · intro row member
    rw [table.timeStamps_size]
    exact (table.appendSpec.valid_runPartial fresh run).mem_contents member

theorem filter_inOrder_iff (table : ThreadState) (ascending : Ascending table.timeStamps)
    {orderBys : List (OrderBy ThreadStateIndex)}
    (consumed : isOrdered sortable table.rowCount orderBys = true) :
    (∀ constraints, table.KeepsOrder constraints →
      ∀ map, table.filter constraints orderBys = some map →
        InOrder sortKey table.timeStamps orderBys map.rows) ↔
      TiesAgree sortKey orderBys ∨ WithoutTies table.timeStamps := by
  have several : table.rowCount ≠ 0 := by
    intro isZero
    simp [isOrdered, isZero] at consumed
  have terms := isOrdered_sortable consumed
  rw [sortable_eq] at terms
  have whole : table.Reached (rowRange 0 table.timeStamps.length) := by
    refine ⟨[], ofRange 0 table.rowCount, trivial, rfl, ?_⟩
    rw [table.timeStamps_size, IndexMap.contents_ofRange]
  rw [← inOrder_iff ascending terms whole fun rows => Reached.ordered]
  constructor
  · rintro always rows ⟨constraints, reached, keeps, run, rfl⟩
    rcases table.filter_of_run run orderBys with ⟨map, filtered, visited⟩
    have inOrder := always constraints keeps map filtered
    rw [visited, sortable_eq] at inOrder
    simpa [visitedRows, several] using inOrder
  · intro always constraints keeps map filtered
    cases run : runPartial table.filterStep (ofRange 0 table.rowCount) constraints with
    | none =>
      rw [table.filter_eq_none several run] at filtered
      cases filtered
    | some reached =>
      rcases table.filter_of_run run orderBys with ⟨other, same, visited⟩
      rw [same] at filtered
      cases filtered
      have inOrder := always _ ⟨constraints, reached, keeps, run, rfl⟩
      rw [visited, sortable_eq]
      simpa [visitedRows, several] using inOrder

end ThreadState

/-! ## sched_slice -/

namespace SchedSlice

def sortKey : SchedIndex → Option SortKey
  | .id => some .id
  | .ts => some .ts
  | _ => none

theorem sortable_eq : sortable = fun column => (sortKey column).isSome := by
  funext column
  cases column <;> rfl

/-- The rows `MixRange` admits on a column. -/
def mixAdmitted {width : Nat} (op : ConstraintOp) (value : Fin (2 ^ width))
    (column : List (Fin (2 ^ width))) : Option (Int → Bool) :=
  (IndexMap.mixChecks op value).map fun checks row => checks.2 (queueAt column row)

/-- The rows a step admits when it finds no data. -/
def admitted (table : SchedSlice) (bound : Bound SchedIndex) : Option (Int → Bool) :=
  let op := bound.1.op
  let argv := bound.2
  match bound.1.col with
  | .ts =>
    if op = .isNotNull then some fun row => decide (queueAt table.timeStamps row ≠ ⊤)
    else none
  | .cpu => mixAdmitted op (operand32 argv) table.cpus
  | .internalTid => mixAdmitted op (operand32 argv) table.internalTids
  | .internalPid => mixAdmitted op (operand32 argv) table.internalPids
  | .dur => mixAdmitted op (operand64 argv) table.durs
  | _ => none

section Step

variable {table : SchedSlice} {map : IndexMap}

section

variable (valid : IndexMap.Valid table.rowCount map)
include valid

theorem mixRange_sublist_of_admitted {width : Nat} {op : ConstraintOp} {value : Fin (2 ^ width)}
    {column : List (Fin (2 ^ width))} (size : column.length = table.rowCount)
    (closed : map.Reopened → mixAdmitted op value column = none) :
    (map.mixRange op value column).contents.Sublist map.contents := by
  apply IndexMap.contents_mixRange_sublist valid op value (by exact_mod_cast size)
  intro reopened
  simpa [mixAdmitted] using closed reopened

theorem mixRange_appends_of_admitted {width : Nat} {op : ConstraintOp} {value : Fin (2 ^ width)}
    {column : List (Fin (2 ^ width))} {admits : Int → Bool}
    (size : column.length = table.rowCount) (reopened : map.Reopened)
    (isAdmit : mixAdmitted op value column = some admits) :
    (map.mixRange op value column).contents =
      map.contents ++ (rowRange 0 table.rowCount).filter admits := by
  rcases Option.map_eq_some_iff.1 isAdmit with ⟨checks, known, rfl⟩
  exact IndexMap.contents_mixRange_reopened valid known (by exact_mod_cast size) reopened

variable {bound : Bound SchedIndex}

theorem filterStep_sublist (closed : map.Reopened → table.admitted bound = none) :
    (table.filterStep map bound).contents.Sublist map.contents := by
  unfold filterStep
  unfold admitted at closed
  cases col : bound.1.col <;> simp only [col] at closed ⊢
  case id => exact IndexMap.contents_cursorFilterId_sublist valid _ _ _
  case ts =>
    apply IndexMap.contents_filterTS_sublist valid (by exact_mod_cast table.timeStamps_size)
    intro reopened isNotNull
    rw [if_pos isNotNull] at closed
    cases closed reopened
  case dur => exact mixRange_sublist_of_admitted valid table.durs_size closed
  case cpu => exact mixRange_sublist_of_admitted valid table.cpus_size closed
  case internalTid => exact mixRange_sublist_of_admitted valid table.internalTids_size closed
  case internalPid => exact mixRange_sublist_of_admitted valid table.internalPids_size closed
  all_goals exact List.Sublist.refl _

theorem filterStep_appends {admits : Int → Bool} (reopened : map.Reopened)
    (isAdmit : table.admitted bound = some admits) : (table.filterStep map bound).contents =
      map.contents ++ (rowRange 0 table.rowCount).filter admits := by
  unfold filterStep
  unfold admitted at isAdmit
  cases col : bound.1.col <;> simp only [col] at isAdmit ⊢
  case ts =>
    split_ifs at isAdmit with isNotNull
    cases isAdmit
    rw [isNotNull]
    exact IndexMap.contents_removeNullElements_reopened valid
      (by exact_mod_cast table.timeStamps_size) reopened
  case dur => exact mixRange_appends_of_admitted valid table.durs_size reopened isAdmit
  case cpu => exact mixRange_appends_of_admitted valid table.cpus_size reopened isAdmit
  case internalTid =>
    exact mixRange_appends_of_admitted valid table.internalTids_size reopened isAdmit
  case internalPid =>
    exact mixRange_appends_of_admitted valid table.internalPids_size reopened isAdmit
  all_goals cases isAdmit

end

theorem appendSpec (table : SchedSlice) :
    IndexMap.AppendSpec (table.rowCount : Int) (fun map bound => some (table.filterStep map bound))
      table.admitted where
  valid := by
    rintro map bound _ valid ⟨⟩
    exact valid_filterStep valid bound
  returns := fun _ _ => ⟨_, rfl⟩
  sublist := by
    rintro map bound _ valid ⟨⟩ closed
    exact filterStep_sublist valid closed
  appends := by
    rintro map bound _ admits valid ⟨⟩ reopened isAdmit
    exact filterStep_appends valid reopened isAdmit

end Step

/-- No step of the loop appends a row that is not after every listed one. -/
def KeepsOrder (table : SchedSlice) (constraints : List (Bound SchedIndex)) : Prop :=
  EachStep table.filterStep (fun map bound =>
    ¬ IndexMap.AppendsAgainst (· < ·) table.rowCount table.admitted map bound)
    (ofRange 0 table.rowCount) constraints

def Reached (table : SchedSlice) (rows : List Int) : Prop :=
  ∃ constraints, table.KeepsOrder constraints ∧ rows =
    (run table.filterStep (ofRange 0 table.rowCount) constraints).contents

theorem Reached.ordered {table : SchedSlice} {rows : List Int} (reached : table.Reached rows) :
    rows.Pairwise (· < ·) ∧ ∀ row ∈ rows, 0 ≤ row ∧ row < table.timeStamps.length := by
  rcases reached with ⟨constraints, keeps, rfl⟩
  have fresh := IndexMap.valid_ofRange (table.rowCount : Int)
  have rangeOrdered := rowRange_ascending 0 (table.rowCount : Int)
  have run := runPartial_some table.filterStep (ofRange 0 table.rowCount) constraints
  constructor
  · exact (table.appendSpec.pairwise_iff rangeOrdered fresh rangeOrdered
      constraints).2 ((eachPartial_some _ _ _ _).2 keeps) constraints _
      (prefix_refl _) run
  · intro row member
    rw [table.timeStamps_size]
    exact (table.appendSpec.valid_runPartial fresh run).mem_contents member

theorem filter_inOrder_iff (table : SchedSlice) (ascending : Ascending table.timeStamps)
    {orderBys : List (OrderBy SchedIndex)}
    (consumed : isOrdered sortable table.rowCount orderBys = true) :
    (∀ constraints, table.KeepsOrder constraints → InOrder sortKey table.timeStamps orderBys
      (table.filter constraints orderBys).rows) ↔
      TiesAgree sortKey orderBys ∨ WithoutTies table.timeStamps := by
  have several : table.rowCount ≠ 0 := by
    intro isZero
    simp [isOrdered, isZero] at consumed
  have terms := isOrdered_sortable consumed
  rw [sortable_eq] at terms
  have whole : table.Reached (rowRange 0 table.timeStamps.length) := by
    refine ⟨[], trivial, ?_⟩
    rw [table.timeStamps_size, run_nil, IndexMap.contents_ofRange]
  have visited : ∀ constraints, (table.filter constraints orderBys).rows =
    visitedRows sortKey orderBys (run table.filterStep (ofRange 0 table.rowCount)
      constraints).contents := by
    intro constraints
    have valid := valid_run (IndexMap.valid_ofRange table.rowCount) constraints
    rw [filter, if_neg several, IndexMap.rows_applyOrderBys valid.visitable, sortable_eq]
    rfl
  rw [← inOrder_iff ascending terms whole fun rows => Reached.ordered]
  simp only [visited]
  constructor
  · rintro always rows ⟨constraints, keeps, rfl⟩
    exact always constraints keeps
  · intro always constraints keeps
    exact always _ ⟨constraints, keeps, rfl⟩

end SchedSlice

/--
For a table of at least two rows with ascending timestamps and an ORDER BY list
reported as ordered, every loop that keeps the rows ascending visits them in
the demanded order, exactly when the directions agree on ties or no two rows
tie.
-/
theorem filter_ordered_iff (states : ThreadState) (stateOrderBys : List (OrderBy ThreadStateIndex))
    (slices : SchedSlice) (sliceOrderBys : List (OrderBy SchedIndex)) :
    (Ascending states.timeStamps → 2 ≤ states.rowCount →
      isOrdered ThreadState.sortable states.rowCount stateOrderBys = true →
        ((∀ constraints, states.KeepsOrder constraints →
          ∀ map, states.filter constraints stateOrderBys = some map →
            InOrder ThreadState.sortKey states.timeStamps stateOrderBys map.rows) ↔
          TiesAgree ThreadState.sortKey stateOrderBys ∨ WithoutTies states.timeStamps)) ∧
      (Ascending slices.timeStamps → 2 ≤ slices.rowCount →
        isOrdered SchedSlice.sortable slices.rowCount sliceOrderBys = true →
          ((∀ constraints, slices.KeepsOrder constraints →
            InOrder SchedSlice.sortKey slices.timeStamps sliceOrderBys
              (slices.filter constraints sliceOrderBys).rows) ↔
            TiesAgree SchedSlice.sortKey sliceOrderBys ∨ WithoutTies slices.timeStamps)) := by
  constructor
  · intro ascending _ consumed
    exact ThreadState.filter_inOrder_iff states ascending consumed
  · intro ascending _ consumed
    exact SchedSlice.filter_inOrder_iff slices ascending consumed

def tiedStates : ThreadState where
  rowCount := 2
  timeStamps := [10, 10]
  durations := [5, 5]
  itids := [1, 2]
  tids := [100, 101]
  pids := [100, 100]
  states := [0, 0]
  cpus := [0, 1]
  argSetIds := [0, 0]
  threadStatus2Value := [("R", 0)]
  rowCount_lt := SchedSlice.twoSlices.rowCount_lt
  timeStamps_size := by decide
  durations_size := rfl
  itids_size := by decide
  tids_size := rfl
  pids_size := rfl
  states_size := rfl
  cpus_size := rfl
  argSetIds_size := rfl

theorem filter_ordered_iff_descending : (∀ constraints, tiedStates.KeepsOrder constraints → ∀ map,
    tiedStates.filter constraints [⟨.ts, true⟩, ⟨.id, true⟩] = some map →
      InOrder ThreadState.sortKey tiedStates.timeStamps [⟨.ts, true⟩, ⟨.id, true⟩] map.rows) ∧
    ∀ constraints, SchedSlice.twoSlices.KeepsOrder constraints →
      InOrder SchedSlice.sortKey SchedSlice.twoSlices.timeStamps [⟨.ts, false⟩, ⟨.id, true⟩]
        (SchedSlice.twoSlices.filter constraints [⟨.ts, false⟩, ⟨.id, true⟩]).rows := by
  have both := filter_ordered_iff tiedStates [⟨.ts, true⟩, ⟨.id, true⟩]
    SchedSlice.twoSlices [⟨.ts, false⟩, ⟨.id, true⟩]
  constructor
  · refine (both.1 (by decide) (by decide) (by decide)).2 (Or.inl ?_)
    intro desc first
    cases first
    rfl
  · refine (both.2 (by decide) (by decide) (by decide)).2 (Or.inr ?_)
    unfold WithoutTies
    decide

/-- `ORDER BY ts, id DESC` is reported as ordered; the tied rows come in ascending order. -/
theorem filter_unordered_on_tie : Ascending tiedStates.timeStamps ∧ 2 ≤ tiedStates.rowCount ∧
    isOrdered ThreadState.sortable tiedStates.rowCount [⟨.ts, false⟩, ⟨.id, true⟩] = true ∧
    ∃ map, tiedStates.filter [] [⟨.ts, false⟩, ⟨.id, true⟩] = some map ∧
      ¬ InOrder ThreadState.sortKey tiedStates.timeStamps
        [⟨.ts, false⟩, ⟨.id, true⟩] map.rows := by
  refine ⟨by decide, by decide, by decide, _, rfl, ?_⟩
  unfold InOrder
  decide

end SysAnalyzer.Table
