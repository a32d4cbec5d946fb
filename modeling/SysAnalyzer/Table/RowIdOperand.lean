import SysAnalyzer.Table.TableBase

/-!
# The operand of a filter on the row number

`FilterId` narrows a 64-bit operand to the 32 bits of a row number and ends the
window of `=`, `>` and `<=` one row behind it.  A window is cut to the rows of
the table, so a bound is as good as another one that lies between the same two
rows: `clampRow` is the place of a bound among the rows.  The filter is exact
when the narrowed bound has the place of the bound itself.
-/

namespace SysAnalyzer.Table

open List

/-- The comparisons that `FilterId` turns into a window of rows. -/
def ComparesRow (op : ConstraintOp) : Prop := op = .eq ∨ op = .ge ∨ op = .gt ∨ op = .le ∨ op = .lt

/-- The place of a bound among the rows `0, …, rowCount - 1`. -/
def clampRow (rowCount bound : Int) : Int := min rowCount (max 0 bound)

def NarrowsInPlace (rowCount : Int) (op : ConstraintOp) (value : Int) : Prop :=
  match op with
  | .eq => 0 ≤ wrapInt32 value → wrapInt32 value < rowCount → wrapInt32 value = value
  | .ge | .lt => clampRow rowCount (wrapInt32 value) = clampRow rowCount value
  | .gt | .le => clampRow rowCount (wrapInt32 (wrapInt32 value + 1)) = clampRow rowCount (value + 1)
  | _ => True

theorem clampRow_eq_iff {rowCount first second : Int} :
    clampRow rowCount first = clampRow rowCount second ↔
      ∀ row, 0 ≤ row → row < rowCount → (first ≤ row ↔ second ≤ row) := by
  unfold clampRow
  constructor
  · intro samePlace row lower upper
    omega
  · intro sameSide
    -- The smaller bound, if it is a row, tells the two bounds apart.
    have atFirst := sameSide (max 0 first)
    have atSecond := sameSide (max 0 second)
    omega

instance (rowCount : Int) (op : ConstraintOp) (value : Int) :
    Decidable (NarrowsInPlace rowCount op value) :=
  match op with
  | .eq => inferInstanceAs (Decidable (_ → _ → _))
  | .ge | .lt | .gt | .le => inferInstanceAs (Decidable (_ = _))
  | .ne | .isNot | .isNotNull | .isNull | .other _ => inferInstanceAs (Decidable True)

namespace IndexMap

theorem rows_eq_contents {map : IndexMap} (visitable : Visitable map) :
    map.rows = map.contents := by
  have visited := rows_applyOrderBys visitable (fun _ : Unit => false) []
  exact visited

theorem rows_intersect_ofRange (rowCount start stop : Int) :
    ((ofRange 0 rowCount).intersect start stop).rows = (rowRange 0 rowCount).filter fun row =>
      decide (start ≤ row ∧ row < stop) := by
  have valid := valid_intersect (valid_ofRange rowCount) start stop
  rw [rows_eq_contents valid.visitable]
  refine List.Perm.eq_of_pairwise (fun first _ _ _ before behind =>
    absurd (Int.lt_trans before behind) (Int.lt_irrefl first))
    ?_ ((rowRange_ascending 0 rowCount).filter _) ?_
  · rw [contents_range rfl]
    exact rowRange_ascending _ _
  · refine (perm_ext_iff_of_nodup ?_ ?_).2 ?_
    · rw [contents_range rfl]
      exact (rowRange_ascending _ _).imp Int.ne_of_lt
    · exact ((rowRange_ascending 0 rowCount).imp Int.ne_of_lt).filter _
    · intro row
      rw [mem_intersect_range rfl, contents_ofRange, mem_filter, decide_eq_true_eq]

def FiltersExactly (rowCount : Int) (op : ConstraintOp) (argv : SqliteValue) : Prop :=
  ((ofRange 0 rowCount).cursorFilterId rowCount op argv).rows =
    (rowRange 0 rowCount).filter fun row => decide (Holds none op argv row)

instance (rowCount : Int) (op : ConstraintOp) (argv : SqliteValue) :
    Decidable (FiltersExactly rowCount op argv) :=
  inferInstanceAs (Decidable (_ = _))

section Window

variable {rowCount start stop : Int} {op : ConstraintOp} {argv : SqliteValue}

theorem filtersExactly_iff_of_window (window :
    (ofRange 0 rowCount).cursorFilterId rowCount op argv =
      (ofRange 0 rowCount).intersect start stop) :
    FiltersExactly rowCount op argv ↔ ∀ row, 0 ≤ row → row < rowCount →
      ((start ≤ row ∧ row < stop) ↔ Holds none op argv row) := by
  unfold FiltersExactly
  rw [window, rows_intersect_ofRange]
  constructor
  · intro sameRows row lower upper
    have member := congrArg (row ∈ ·) sameRows
    simpa [mem_rowRange, lower, upper] using member
  · intro sameSide
    apply filter_congr
    intro row member
    rcases mem_rowRange.1 member with ⟨lower, upper⟩
    rw [decide_eq_decide]
    exact sameSide row lower upper

end Window

theorem cursorFilterId_ofRange (rowCount : Int) (op : ConstraintOp) {argv : SqliteValue}
    (isInteger : argv.type = .integer) : (ofRange 0 rowCount).cursorFilterId rowCount op argv =
      (ofRange 0 rowCount).filterIdSwitch rowCount op (wrapInt32 argv.int64) := by
  simp [cursorFilterId, isInteger, covertIfData, hasData, ofRange]

/--
The window of `=` has at most one row, and none when the narrowed operand is
the largest row number.
-/
theorem mem_equalWindow_iff {rowCount value row : Int}
    (small : rowCount < 2 ^ 31) (lower : 0 ≤ row) (upper : row < rowCount) :
    (wrapInt32 value ≤ row ∧ row < wrapInt32 (wrapInt32 value + 1)) ↔ row = wrapInt32 value := by
  have narrow := wrapInt32_bounds value
  by_cases largest : wrapInt32 value = 2 ^ 31 - 1
  · have overflows : wrapInt32 (wrapInt32 value + 1) = -2 ^ 31 := by
      rw [largest]
      decide
    omega
  · have next : wrapInt32 (wrapInt32 value + 1) = wrapInt32 value + 1 :=
      wrapInt32_of_mem (by omega) (by omega)
    omega

/--
A filter on the row number leaves exactly the rows that satisfy it if and only
if narrowing its operand does not move it across a row.
-/
theorem filtersExactly_iff {rowCount : Int} (small : rowCount < 2 ^ 31)
    {op : ConstraintOp} (compares : ComparesRow op)
    {argv : SqliteValue} (isInteger : argv.type = .integer) :
    FiltersExactly rowCount op argv ↔ NarrowsInPlace rowCount op argv.int64 := by
  have window := cursorFilterId_ofRange rowCount op isInteger
  rcases compares with equal | atLeast | above | atMost | below
  · subst equal
    rw [filtersExactly_iff_of_window window]
    simp only [holds_eq_iff isInteger, NarrowsInPlace]
    constructor
    · intro sameRow lower upper
      have inside : (wrapInt32 argv.int64 ≤ wrapInt32 argv.int64 ∧
        wrapInt32 argv.int64 < wrapInt32 (wrapInt32 argv.int64 + 1)) ↔
          wrapInt32 argv.int64 = wrapInt32 argv.int64 :=
        mem_equalWindow_iff small lower upper
      exact (sameRow _ lower upper).1 (inside.2 rfl)
    · intro sameRow row lower upper
      rw [mem_equalWindow_iff small lower upper]
      constructor
      · rintro rfl
        exact sameRow lower upper
      · rintro rfl
        exact (wrapInt32_of_mem (by omega) (by omega)).symm
  · subst atLeast
    rw [filtersExactly_iff_of_window window]
    simp only [holds_ge_iff isInteger, NarrowsInPlace, clampRow_eq_iff]
    refine forall₃_congr fun row lower upper => ?_
    simp [upper]
  · subst above
    rw [filtersExactly_iff_of_window window]
    simp only [holds_gt_iff isInteger, NarrowsInPlace, clampRow_eq_iff]
    refine forall₃_congr fun row lower upper => ?_
    simp [upper]
  · subst atMost
    rw [filtersExactly_iff_of_window window]
    simp only [holds_le_iff isInteger, NarrowsInPlace, clampRow_eq_iff]
    refine forall₃_congr fun row lower upper => ?_
    omega
  · subst below
    rw [filtersExactly_iff_of_window window]
    simp only [holds_lt_iff isInteger, NarrowsInPlace, clampRow_eq_iff]
    refine forall₃_congr fun row lower upper => ?_
    omega

theorem filtersExactly_three : FiltersExactly 3 .gt (SqliteValue.ofInt 0) :=
  (filtersExactly_iff (by decide) (by simp [ComparesRow]) rfl).2 (by decide)

/-- `id = 2^32` finds the row 0. -/
theorem not_filtersExactly_large : ¬ FiltersExactly 1 .eq (SqliteValue.ofInt (2 ^ 32)) := by decide

end IndexMap

end SysAnalyzer.Table
