import SysAnalyzer.Table.SchedSlice

/-!
# The constraints SQLite does not check again

`BestIndex` marks the comparisons on `id` and `ts` as `omit`: SQLite then
trusts the cursor and returns every visited row.  The cursor may be trusted
exactly as long as no marked step is at fault.  A step is at fault when its
search window admits a row that does not satisfy the constraint, or when the
window is empty and the rows are held as a list, because `Intersect` then
keeps the old list.
-/

namespace SysAnalyzer.Table

open Foundation List

namespace SchedSlice

/-- `FilterByConstraint` of `sched_slice` by column. -/
def columnKind : SchedIndex → ColumnKind
  | .id => .rowNumber
  | .ts => .sorted
  | _ => .plain

/-- The constraints together with the `omit` flags `BestIndex` reports. -/
def planned (table : SchedSlice) (divLog2 : Nat → Nat)
    (constraints : List (Bound SchedIndex)) : List (Bound SchedIndex × Bool) :=
  constraints.zip (bestIndexOmit divLog2 columnKind table.rowCount (constraints.map Prod.fst))

/-- The filter step of a constraint with its flag; the flag is not read. -/
def plannedStep (table : SchedSlice) (map : IndexMap)
    (entry : Bound SchedIndex × Bool) : IndexMap :=
  table.filterStep map entry.1

/-- The rows the window of a filter on `id` admits. -/
def IdAdmits (op : ConstraintOp) (argv : SqliteValue) (row : Int) : Prop :=
  let v := wrapInt32 argv.int64
  argv.type = .integer ∧ match op with
    | .eq => row = v
    | .ge => v ≤ row
    | .gt => wrapInt32 (v + 1) ≤ row
    | .le => row < wrapInt32 (v + 1)
    | .lt => row < v
    | _ => False

/--
The rows the window of a filter on `ts` admits.  Only the first `end_` rows of
the column are searched: the window of `≥` is open beyond them.
-/
def TsAdmits (times : List (Fin (2 ^ 64))) (op : ConstraintOp)
    (argv : SqliteValue) (map : IndexMap) (row : Int) : Prop :=
  let v := toUnsigned 64 argv.int64
  match op with
  | .eq => row < map.end_ ∧ queueAt times row = v
  | .gt => row < map.end_ → v + 1 ≤ queueAt times row
  | .ge => row < map.end_ → v ≤ queueAt times row
  | .le => row < map.end_ ∧ queueAt times row ≤ v + 1
  | .lt => row < map.end_ ∧ queueAt times row ≤ v
  | _ => False

def Admits (table : SchedSlice) (map : IndexMap) (bound : Bound SchedIndex) (row : Int) : Prop :=
  match bound.1.col with
  | .id => IdAdmits bound.1.op bound.2 row
  | .ts => TsAdmits table.timeStamps bound.1.op bound.2 map row
  | _ => False

/-- A step finds the rows as a list; a filter on `id` may itself write it out. -/
def FindsList (map : IndexMap) (bound : Bound SchedIndex) : Prop :=
  map.indexType = .outerIndex ∨ (bound.1.col = .id ∧ bound.2.type = .integer ∧ map.hasData = true)

/-- The window admits a row of the map that does not satisfy the constraint. -/
def WrongWindow (table : SchedSlice) (map : IndexMap) (bound : Bound SchedIndex) : Prop :=
  ∃ row ∈ map.contents, table.Admits map bound row ∧ ¬ table.Satisfies bound row

/-- The window admits no row of a list, so the list stays, wrong rows included. -/
def KeepsOldList (table : SchedSlice) (map : IndexMap) (bound : Bound SchedIndex) : Prop :=
  FindsList map bound ∧ (∀ row ∈ map.contents, ¬ table.Admits map bound row) ∧
    ∃ row ∈ map.contents, ¬ table.Satisfies bound row

/-- A step without fault. -/
def OmitSafe (table : SchedSlice) (map : IndexMap) (bound : Bound SchedIndex) : Prop :=
  ¬ table.WrongWindow map bound ∧ ¬ table.KeepsOldList map bound

/-- The comparisons `BestIndex` may mark. -/
def Markable (bound : Bound SchedIndex) : Prop :=
  columnKind bound.1.col ≠ .plain ∧ (bound.1.op = .eq ∨ bound.1.op = .gt ∨ bound.1.op = .ge ∨
    bound.1.op = .le ∨ bound.1.op = .lt)

section Step

variable {table : SchedSlice} {map : IndexMap}

theorem mem_filterIdSwitch_iff {op : ConstraintOp} {argv : SqliteValue}
    (isInteger : argv.type = .integer) (valid : IndexMap.Valid table.rowCount map) (comparison :
      op = .eq ∨ op = .gt ∨ op = .ge ∨ op = .le ∨ op = .lt) (row : Int) :
    row ∈ (map.filterIdSwitch table.rowCount op (wrapInt32 argv.int64)).contents ↔
      row ∈ map.contents ∧ map.Keeps (IdAdmits op argv) row := by
  have bounded := table.rowCount_lt
  have small := wrapInt32_bounds argv.int64
  have incremented : wrapInt32 argv.int64 < 2 ^ 31 - 1 →
    wrapInt32 (wrapInt32 argv.int64 + 1) = wrapInt32 argv.int64 + 1 :=
    fun below => wrapInt32_of_mem (by omega) (by omega)
  have window : ∀ start stop : Int, (∀ other ∈ map.contents,
    (start ≤ other ∧ other < stop ↔ IdAdmits op argv other)) →
      (row ∈ (map.intersect start stop).contents ↔
        row ∈ map.contents ∧ map.Keeps (IdAdmits op argv) row) := by
    intro start stop agree
    rw [IndexMap.mem_intersect_iff]
    exact and_congr_right fun member => IndexMap.Keeps.congr agree member
  rcases comparison with rfl | rfl | rfl | rfl | rfl
  · apply window
    intro other inside
    have bounds := valid.mem_contents inside
    simp only [IdAdmits, isInteger, true_and]
    by_cases largest : wrapInt32 argv.int64 = 2 ^ 31 - 1
    · rw [largest]
      omega
    · rw [incremented (by omega)]
      omega
  · apply window
    intro other inside
    have bounds := valid.mem_contents inside
    simp only [IdAdmits, isInteger, true_and, bounds.2, and_true]
  · apply window
    intro other inside
    have bounds := valid.mem_contents inside
    simp only [IdAdmits, isInteger, true_and, bounds.2, and_true]
  · apply window
    intro other inside
    have bounds := valid.mem_contents inside
    simp only [IdAdmits, isInteger, true_and, bounds.1]
  · apply window
    intro other inside
    have bounds := valid.mem_contents inside
    simp only [IdAdmits, isInteger, true_and, bounds.1]

theorem mem_idStep_iff (valid : IndexMap.Valid table.rowCount map)
    {op : ConstraintOp} {argv : SqliteValue} (comparison :
      op = .eq ∨ op = .gt ∨ op = .ge ∨ op = .le ∨ op = .lt) (row : Int) :
    row ∈ (map.cursorFilterId table.rowCount op argv).contents ↔
      row ∈ map.contents ∧ (IdAdmits op argv row ∨ ((map.indexType = .outerIndex ∨
        (argv.type = .integer ∧ map.hasData = true)) ∧
        ∀ other ∈ map.contents, ¬ IdAdmits op argv other)) := by
  by_cases isInteger : argv.type = .integer
  · have unfolded : map.cursorFilterId table.rowCount op argv =
      map.covertIfData.filterIdSwitch table.rowCount op (wrapInt32 argv.int64) := by
      simp [IndexMap.cursorFilterId, isInteger]
    have kind := IndexMap.covertIfData_indexType map
    have isList : map.covertIfData.indexType = .outerIndex ↔
      map.indexType = .outerIndex ∨ map.hasData = true := by
      cases after : map.covertIfData.indexType <;> cases before : map.indexType <;>
        cases data : map.hasData <;>
        simp_all
    rw [unfolded, mem_filterIdSwitch_iff isInteger (IndexMap.valid_covertIfData valid) comparison,
      IndexMap.contents_covertIfData valid]
    simp only [IndexMap.Keeps, IndexMap.contents_covertIfData valid, isList, isInteger, true_and]
  · have unfolded : map.cursorFilterId table.rowCount op argv = map.intersect 0 0 := by
      simp [IndexMap.cursorFilterId, isInteger]
    rw [unfolded, IndexMap.mem_intersect_of_inverted le_rfl]
    simp [IdAdmits, isInteger]

theorem mem_tsStep_iff (valid : IndexMap.Valid table.rowCount map)
    (ascending : Ascending table.timeStamps) {op : ConstraintOp} {argv : SqliteValue} (comparison :
      op = .eq ∨ op = .gt ∨ op = .ge ∨ op = .le ∨ op = .lt) (row : Int) :
    row ∈ (map.filterTS op argv table.timeStamps).contents ↔ row ∈ map.contents ∧
      map.Keeps (TsAdmits table.timeStamps op argv map) row := by
  have bounded : (table.rowCount : Int) ≤ invalidInt32 := by
    have := table.rowCount_lt
    simp only [invalidInt32]
    omega
  rcases comparison with rfl | rfl | rfl | rfl | rfl
  · exact IndexMap.mem_intersectabcEqual_iff valid ascending _ row
  · exact IndexMap.mem_intersectGreaterEqual_iff valid ascending bounded _ row
  · exact IndexMap.mem_intersectGreaterEqual_iff valid ascending bounded _ row
  · exact IndexMap.mem_intersectLessEqual_iff valid ascending _ row
  · exact IndexMap.mem_intersectLessEqual_iff valid ascending _ row

variable {bound : Bound SchedIndex}

theorem mem_filterStep_of_markable (valid : IndexMap.Valid table.rowCount map)
    (ascending : Ascending table.timeStamps) (markable : Markable bound) (row : Int) :
    row ∈ (table.filterStep map bound).contents ↔ row ∈ map.contents ∧
      (table.Admits map bound row ∨ (FindsList map bound ∧
        ∀ other ∈ map.contents, ¬ table.Admits map bound other)) := by
  obtain ⟨⟨col, op, support⟩, argv⟩ := bound
  obtain ⟨exact, comparison⟩ := markable
  cases col with
  | id => simpa [filterStep, Admits, FindsList] using mem_idStep_iff valid comparison row
  | ts =>
    simpa [filterStep, Admits, FindsList, IndexMap.Keeps] using
      mem_tsStep_iff valid ascending comparison row
  | _ => simp [columnKind] at exact

theorem omitSafe_iff (valid : IndexMap.Valid table.rowCount map)
    (ascending : Ascending table.timeStamps) (markable : Markable bound) :
    table.OmitSafe map bound ↔ ∀ row ∈ (table.filterStep map bound).contents,
      table.Satisfies bound row := by
  simp only [mem_filterStep_of_markable valid ascending markable]
  constructor
  · rintro ⟨rightWindow, noOldList⟩ row ⟨member, admitted | oldList⟩
    · by_contra unsatisfied
      exact rightWindow ⟨row, member, admitted, unsatisfied⟩
    · by_contra unsatisfied
      exact noOldList ⟨oldList.1, oldList.2, row, member, unsatisfied⟩
  · intro allSatisfied
    constructor
    · rintro ⟨row, member, admitted, unsatisfied⟩
      exact unsatisfied (allSatisfied row ⟨member, Or.inl admitted⟩)
    · rintro ⟨isList, noneAdmitted, row, member, unsatisfied⟩
      exact unsatisfied (allSatisfied row ⟨member, Or.inr ⟨isList, noneAdmitted⟩⟩)

theorem hasData_of_markable (markable : Markable bound) :
    (table.filterStep map bound).hasData = true := by
  obtain ⟨⟨col, op, support⟩, argv⟩ := bound
  obtain ⟨exact, comparison⟩ := markable
  cases col with
  | id =>
    by_cases isInteger : argv.type = .integer
    · rcases comparison with rfl | rfl | rfl | rfl | rfl <;>
        simp [filterStep, IndexMap.cursorFilterId, isInteger,
          IndexMap.filterIdSwitch, IndexMap.hasData]
    · simp [filterStep, IndexMap.cursorFilterId, isInteger, IndexMap.hasData]
  | ts =>
    rcases comparison with rfl | rfl | rfl | rfl | rfl <;>
      simp [filterStep, IndexMap.filterTS, IndexMap.intersectabcEqual,
        IndexMap.intersectGreaterEqual, IndexMap.intersectLessEqual,
        IndexMap.hasData]
  | _ => simp [columnKind] at exact

end Step

section Loop

variable {table : SchedSlice} {map : IndexMap}

variable {constraints : List (Bound SchedIndex)}

theorem planned_markable (divLog2 : Nat → Nat) {entry : Bound SchedIndex × Bool}
    (member : entry ∈ table.planned divLog2 constraints)
    (marked : entry.2 = true) : Markable entry.1 := by
  have flagged : (entry.1.1, entry.2) ∈ (constraints.map Prod.fst).zip
    (bestIndexOmit divLog2 columnKind table.rowCount (constraints.map Prod.fst)) := by
    rw [zip_map_left]
    exact List.mem_map.2 ⟨entry, member, rfl⟩
  exact bestIndexOmit_flaggedExactly divLog2 columnKind table.rowCount _ _ flagged marked

theorem planned_fst
    (table : SchedSlice) (divLog2 : Nat → Nat) (constraints : List (Bound SchedIndex)) :
    (table.planned divLog2 constraints).map Prod.fst = constraints := by
  rw [planned, map_fst_zip]
  simp [bestIndexOmit_length]

theorem planned_append
    (table : SchedSlice) (divLog2 : Nat → Nat) (first second : List (Bound SchedIndex)) :
    ∃ rest, table.planned divLog2 (first ++ second) = table.planned divLog2 first ++ rest := by
  obtain ⟨rest, same⟩ :=
    bestIndexOmit_append divLog2 columnKind table.rowCount
      (first.map Prod.fst) (second.map Prod.fst)
  refine ⟨second.zip rest, ?_⟩
  rw [planned, map_append, same, zip_append]
  · rfl
  · simp [bestIndexOmit_length]

theorem planned_of_split {divLog2 : Nat → Nat} {first second : List (Bound SchedIndex × Bool)}
    (split : table.planned divLog2 constraints = first ++ second) :
    table.planned divLog2 (first.map Prod.fst) = first := by
  have whole : constraints = first.map Prod.fst ++ second.map Prod.fst := by
    rw [← planned_fst table divLog2 constraints, split, map_append]
  obtain ⟨rest, same⟩ := planned_append table divLog2 (first.map Prod.fst) (second.map Prod.fst)
  rw [← whole, split] at same
  have sameLength : first.length = (table.planned divLog2 (first.map Prod.fst)).length := by
    have fsts := congrArg List.length (planned_fst table divLog2 (first.map Prod.fst))
    simpa using fsts.symm
  exact (append_inj_left same sameLength).symm

theorem run_plannedStep (entries : List (Bound SchedIndex × Bool)) :
    run table.plannedStep map entries = run table.filterStep map (entries.map Prod.fst) :=
  run_map table.filterStep Prod.fst map entries

theorem satisfies_of_omitSafe (ascending : Ascending table.timeStamps)
    (valid : IndexMap.Valid table.rowCount map) {entries : List (Bound SchedIndex × Bool)}
    (markable : ∀ entry ∈ entries, entry.2 = true → Markable entry.1) (safe :
      EachStep table.plannedStep (fun map entry => entry.2 = true → table.OmitSafe map entry.1)
        map entries) {row : Int} (member : row ∈ (run table.plannedStep map entries).contents)
    {bound : Bound SchedIndex} (marked : (bound, true) ∈ entries) : table.Satisfies bound row := by
  induction entries generalizing map with
  | nil => simp at marked
  | cons entry rest induction =>
    have stepValid := valid_filterStep valid entry.1
    rcases List.mem_cons.1 marked with rfl | later
    · -- The marked step itself: the rows of the end were left by it.
      have atHead := markable _ mem_cons_self rfl
      have kept : row ∈ (table.filterStep map bound).contents := by
        by_contra lost
        rw [run_plannedStep, map_cons, run_cons] at member
        exact not_mem_run_of_lost stepValid (hasData_of_markable atHead)
          (rest.map Prod.fst) lost member
      exact (omitSafe_iff valid ascending atHead).1 (safe.1 rfl) row kept
    · exact induction stepValid (fun other inRest => markable other (mem_cons_of_mem _ inRest))
        safe.2 member later

/--
For a table of at least two rows, the loop is defined and the cursor may be
trusted on the marked constraints, for the list and each of its beginnings,
exactly when no step searches outside the column and no marked one is at fault.
-/
theorem filter_omit_sound_iff (table : SchedSlice) (ascending : Ascending table.timeStamps)
    (several : 2 ≤ table.rowCount) (divLog2 : Nat → Nat) (constraints : List (Bound SchedIndex)) :
    (table.FilterDefined constraints ∧ ∀ before, before <+: constraints →
      ∀ orderBys, ∀ row ∈ (table.filter before orderBys).rows, ∀ bound,
        (bound, true) ∈ table.planned divLog2 before → table.Satisfies bound row) ↔
      table.FilterDefined constraints ∧ EachStep table.plannedStep
        (fun map entry => entry.2 = true → table.OmitSafe map entry.1)
        (ofRange 0 table.rowCount) (table.planned divLog2 constraints) := by
  apply and_congr_right'
  have fresh := IndexMap.valid_ofRange (table.rowCount : Int)
  have visited : ∀ before orderBys row, row ∈ (table.filter before orderBys).rows ↔
    row ∈ (run table.plannedStep (ofRange 0 table.rowCount)
      (table.planned divLog2 before)).contents := by
    intro before orderBys row
    rw [run_plannedStep, planned_fst, filter, if_neg (by omega),
      IndexMap.mem_rows_applyOrderBys (valid_run fresh before).visitable]
  constructor
  · intro sound
    rw [eachStep_iff_split]
    intro before entry after split marked
    -- The constraints up to and including the marked one.
    have markable : Markable entry.1 := planned_markable divLog2 (by rw [split]; simp) marked
    have constraintsSplit : constraints =
      (before.map Prod.fst ++ [entry.1]) ++ after.map Prod.fst := by
      rw [← planned_fst table divLog2 constraints, split]
      simp
    have prefixPlanned : table.planned divLog2 (before.map Prod.fst ++ [entry.1]) =
      before ++ [entry] := by
      have whole : table.planned divLog2 constraints = (before ++ [entry]) ++ after := by
        simpa using split
      simpa using planned_of_split whole
    have validBefore := valid_run fresh (before.map Prod.fst)
    rw [← run_plannedStep] at validBefore
    rw [omitSafe_iff validBefore ascending markable]
    intro row member
    refine sound _ ⟨_, constraintsSplit.symm⟩ [] row ?_ entry.1 ?_
    · rw [visited, prefixPlanned, run_append]
      exact member
    · rw [prefixPlanned, ← marked]
      simp
  · rintro safe before ⟨after, rfl⟩ orderBys row member bound marked
    obtain ⟨rest, same⟩ := planned_append table divLog2 before after
    rw [same, eachStep_append] at safe
    rw [visited] at member
    exact satisfies_of_omitSafe ascending fresh
      (fun entry inside => planned_markable divLog2 inside) safe.1 member
      marked

/-- The constraint `id op value`. -/
def idConstraint (op : ConstraintOp) (value : Int) : Bound SchedIndex :=
  (⟨.id, op, false⟩, SqliteValue.ofInt value)

/-- The constraint `ts op value`. -/
def tsConstraint (op : ConstraintOp) (value : Int) : Bound SchedIndex :=
  (⟨.ts, op, false⟩, SqliteValue.ofInt value)

theorem filter_omit_sound_iff_id_ge : Ascending twoSlices.timeStamps ∧ 2 ≤ twoSlices.rowCount ∧
    twoSlices.FilterDefined [idConstraint .ge 1] ∧ ∀ before, before <+: [idConstraint .ge 1] →
      ∀ orderBys, ∀ row ∈ (twoSlices.filter before orderBys).rows, ∀ bound,
        (bound, true) ∈ twoSlices.planned (fun n => n / Nat.log2 n) before →
          twoSlices.Satisfies bound row := by
  refine ⟨by decide, by decide, ?_⟩
  have sound :=
    filter_omit_sound_iff twoSlices (by decide) (by decide)
      (fun n => n / Nat.log2 n) [idConstraint .ge 1]
  apply sound.2
  refine ⟨Or.inr ⟨by simp [StepDefined, idConstraint], trivial⟩, fun _ => ⟨?_, ?_⟩, trivial⟩
  · rintro ⟨row, _, ⟨_, admitted⟩, unsatisfied⟩
    have atLeast : Holds none .ge (SqliteValue.ofInt 1) row := (holds_ge_iff rfl).2 admitted
    exact unsatisfied atLeast
  · rintro ⟨isList, _⟩
    rcases isList with isList | ⟨_, _, data⟩
    · cases isList
    · cases data

/-- `ts IS NOT NULL` and `cpu = 5` list each row twice: the search then leaves the column. -/
example : ¬ twoSlices.FilterDefined
    [tsConstraint .isNotNull 0, cpuConstraint .eq 5, tsConstraint .ge 15] := by
  rintro (empty | ⟨_, _, inside, _⟩)
  · cases empty
  · exact absurd (inside rfl (by decide)).2.2 (by decide)

/-- `ts < 20` is marked, and the slice that starts at 20 is visited. -/
theorem filter_omit_unsound_ts_lt :
    Ascending twoSlices.timeStamps ∧ 2 ≤ twoSlices.rowCount ∧
      twoSlices.FilterDefined [tsConstraint .lt 20] ∧ (tsConstraint .lt 20, true) ∈
      twoSlices.planned (fun n => n / Nat.log2 n) [tsConstraint .lt 20] ∧
      1 ∈ (twoSlices.filter [tsConstraint .lt 20] []).rows ∧
      ¬ twoSlices.Satisfies (tsConstraint .lt 20) 1 := by
  refine ⟨by decide, by decide, Or.inr ⟨fun _ _ => ?_, trivial⟩, List.mem_singleton.2 rfl,
    by decide, ?_⟩
  · exact ⟨by decide, by decide, by decide⟩
  show ¬ Holds (some (2 ^ 64 - 1)) .lt (SqliteValue.ofInt 20) 20
  decide

end Loop

end SchedSlice

end SysAnalyzer.Table
