import SysAnalyzer.Table.IndexMapFilters

/-!
# Merging two index maps

`Merge` joins the rows of another map into this one.  Some cursors call it with
the map itself as the other one: that call changes the representation at most.

Three of its loops advance the wrong counter, or none, and never end on rows
that are left over on one side.  `merge` answers `none` there.
-/

namespace SysAnalyzer.Table

namespace IndexMap

/--
The merging loop over two lists.  When the second list is exhausted first, the
inner loop counts up `bIndex` where it tests `aIndex`.
-/
def mergeLists : List Int → List Int → Option (List Int)
  | [], b => some b
  | _ :: _, [] => none
  | x :: a, y :: b =>
    if x < y then (mergeLists a (y :: b)).map (x :: ·)
    else if x = y then (mergeLists a b).map (x :: ·)
    else (mergeLists (x :: a) b).map (y :: ·)
  termination_by a b => a.length + b.length

/-- `start_ = current_ = 0; end_ = rowIndex_.size();` -/
def restart (map : IndexMap) : IndexMap :=
  { map with start := 0, current := 0, end_ := map.rowIndex.length }

/-- `Merge`; `none` when the call does not return. -/
def merge (map other : IndexMap) : Option IndexMap :=
  let a := map.covertToIndexMap
  let b := other.covertToIndexMap
  if map.indexType = .id ∧ other.indexType = .id then
    if (map.start ≤ other.start ∧ other.start ≤ map.end_) ∨
      (other.start ≤ map.start ∧ map.start ≤ other.end_) then
      some { map with
        start := min map.start other.start
        end_ := max map.end_ other.end_ }
    else
      -- Neither copying loop advances, so only an empty source is copied.
      let copied := if map.start > other.start then b.rowIndex else a.rowIndex
      if copied.isEmpty then some a.restart
      else none
  else
    (mergeLists a.rowIndex b.rowIndex).map fun rows => restart { a with rowIndex := rows }

theorem mergeLists_self (rows : List Int) : mergeLists rows rows = some rows := by
  induction rows with
  | nil => simp [mergeLists]
  | cons row rest induction =>
    rw [mergeLists]
    simp [induction]

theorem merge_self {rowCount : Int} {map : IndexMap} (valid : Valid rowCount map)
    (data : map.hasData = true) :
    ∃ merged, map.merge map = some merged ∧ merged.contents = map.contents ∧
      Valid rowCount merged := by
  have listed := covertToIndexMap_rowIndex valid data
  have validList := valid_covertToIndexMap valid data
  have isList : map.covertToIndexMap.restart.indexType = .outerIndex :=
    covertToIndexMap_indexType map
  have validRestart : Valid rowCount map.covertToIndexMap.restart :=
    valid_of_list isList rfl rfl rfl validList.list_rows validList.forward
  have sameContents : map.covertToIndexMap.restart.contents = map.contents := by
    rw [contents_list isList]
    exact listed
  cases kind : map.indexType with
  | id =>
    by_cases ordered : map.start ≤ map.end_
    · refine ⟨map, ?_, rfl, valid⟩
      simp only [merge, kind, le_refl, ordered, and_self, if_true, or_self, min_self, max_self]
      rw [← kind]
    · have none : map.contents = [] := by
        rw [contents_range kind, rowRange_eq_nil (by omega)]
      refine ⟨map.covertToIndexMap.restart, ?_, sameContents, validRestart⟩
      simp [merge, kind, ordered, listed, none]
  | outerIndex =>
    refine ⟨map.covertToIndexMap.restart, ?_, sameContents, validRestart⟩
    simp [merge, kind, mergeLists_self, -covertToIndexMap_indexType]

/-- `if (indexMap_->HasData()) indexMap_->Merge(indexMap_)`. -/
def mergeIfData (map : IndexMap) : Option IndexMap :=
  if map.hasData then map.merge map else some map

theorem mergeIfData_returns {rowCount : Int} {map : IndexMap} (valid : Valid rowCount map) :
    ∃ merged, map.mergeIfData = some merged ∧ merged.contents = map.contents ∧
      Valid rowCount merged := by
  unfold mergeIfData
  split_ifs with data
  · exact merge_self valid data
  · exact ⟨map, rfl, rfl, valid⟩

end IndexMap

end SysAnalyzer.Table
