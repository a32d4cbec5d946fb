import SysAnalyzer.Table.IndexMap

/-!
# What an index map denotes

The rows of an index map are `contents`: the range while it is a range, the
list once it is a list.  `Valid` collects what every cursor keeps between two
filters, and the theorems of this module read each filter as an operation on
`contents`.  The visiting loop enumerates `contents`, forwards or backwards.
-/

namespace SysAnalyzer.Table

open Foundation List

variable {stop : Int}

@[simp]
theorem mem_rowRange {start row : Int} : row ∈ rowRange start stop ↔ start ≤ row ∧ row < stop := by
  simp only [rowRange, mem_map, mem_range]
  constructor
  · rintro ⟨offset, bound, rfl⟩
    omega
  · rintro ⟨lower, upper⟩
    exact ⟨(row - start).toNat, by omega, by omega⟩

theorem length_rowRange (start stop : Int) :
    (rowRange start stop).length = (stop - start).toNat := by
  simp [rowRange]

theorem rowRange_eq_nil {start : Int} (inverted : stop ≤ start) : rowRange start stop = [] := by
  have none : (stop - start).toNat = 0 := by omega
  simp [rowRange, none]

theorem rowRange_cons {start : Int} (nonempty : start < stop) :
    rowRange start stop = start :: rowRange (start + 1) stop := by
  have count : (stop - start).toNat = (stop - (start + 1)).toNat + 1 := by
    omega
  rw [rowRange, rowRange, count, range_succ_eq_map]
  simp only [map_cons, map_map, Nat.cast_zero, add_zero]
  congr 1
  apply map_congr_left
  intro offset _
  simp only [Function.comp_apply, Nat.succ_eq_add_one]
  push_cast
  ring

theorem rowRange_concat {start : Int} (nonempty : start < stop) :
    rowRange start stop = rowRange start (stop - 1) ++ [stop - 1] := by
  have count : (stop - start).toNat = (stop - 1 - start).toNat + 1 := by
    omega
  rw [rowRange, rowRange, count, range_succ, map_append]
  congr 1
  simp only [map_cons, map_nil]
  congr 1
  omega

theorem rowRange_ascending (start stop : Int) : (rowRange start stop).Pairwise (· < ·) := by
  rw [rowRange, pairwise_map]
  apply List.pairwise_lt_range.imp
  intro left right ordered
  omega

namespace IndexMap

/-- The rows of the map, in the order a forward visit meets them. -/
def contents (map : IndexMap) : List Int :=
  match map.indexType with
  | .id => rowRange map.start map.end_
  | .outerIndex => map.rowIndex

variable {map : IndexMap}

theorem contents_range (isRange : map.indexType = .id) :
    map.contents = rowRange map.start map.end_ := by
  simp [contents, isRange]

theorem contents_list (isList : map.indexType = .outerIndex) : map.contents = map.rowIndex := by
  simp [contents, isList]

/--
The state of a cursor's map between two filters of a table with `rowCount`
rows: a range uses no list and lies inside the table, a list is visited from
its first to its last entry.
-/
structure Valid (rowCount : Int) (map : IndexMap) : Prop where
  range_rowIndex : map.indexType = .id → map.rowIndex = []
  range_start : map.indexType = .id → 0 ≤ map.start
  range_end : map.indexType = .id → map.end_ ≤ rowCount
  range_converted : map.indexType = .id → map.converted = false
  range_fresh : map.indexType = .id → map.empty = true → map.start = 0 ∧ map.end_ = rowCount
  list_start : map.indexType = .outerIndex → map.start = 0
  list_end : map.indexType = .outerIndex → map.end_ = map.rowIndex.length
  list_rows : ∀ row ∈ map.rowIndex, 0 ≤ row ∧ row < rowCount
  at_start : map.current = map.start
  forward : map.desc = false

/-- What visiting the rows relies on. -/
structure Visitable (map : IndexMap) : Prop where
  list_start : map.indexType = .outerIndex → map.start = 0
  list_end : map.indexType = .outerIndex → map.end_ = map.rowIndex.length
  at_start : map.current = map.start
  forward : map.desc = false

variable {rowCount : Int}

theorem Valid.visitable (valid : Valid rowCount map) : Visitable map :=
  ⟨valid.list_start, valid.list_end, valid.at_start, valid.forward⟩

theorem valid_ofRange (rowCount : Int) : Valid rowCount (ofRange 0 rowCount) := by
  constructor <;> simp [ofRange]

theorem contents_ofRange (rowCount : Int) : (ofRange 0 rowCount).contents = rowRange 0 rowCount :=
  rfl

theorem Valid.mem_contents (valid : Valid rowCount map)
    {row : Int} (member : row ∈ map.contents) : 0 ≤ row ∧ row < rowCount := by
  cases kind : map.indexType with
  | id =>
    rw [contents_range kind, mem_rowRange] at member
    have lower := valid.range_start kind
    have upper := valid.range_end kind
    omega
  | outerIndex =>
    rw [contents_list kind] at member
    exact valid.list_rows row member

@[simp]
theorem covertToIndexMap_indexType (map : IndexMap) :
    map.covertToIndexMap.indexType = .outerIndex := by
  unfold covertToIndexMap
  split_ifs <;> rfl

theorem covertToIndexMap_empty (data : map.hasData = true) :
    map.covertToIndexMap.empty = false := by
  have notEmpty : map.empty = false := by simpa [hasData] using data
  unfold covertToIndexMap
  split_ifs <;> simp [notEmpty]

theorem covertToIndexMap_rowIndex (valid : Valid rowCount map) (data : map.hasData = true) :
    map.covertToIndexMap.rowIndex = map.contents := by
  cases kind : map.indexType with
  | id =>
    have unconverted := valid.range_converted kind
    have unused := valid.range_rowIndex kind
    simp [covertToIndexMap, unconverted, kind, data, unused, contents]
  | outerIndex =>
    rw [contents_list kind]
    unfold covertToIndexMap
    split_ifs with converted isRange
    · rfl
    · rw [kind] at isRange
      exact absurd isRange.1 (by decide)
    · rfl

theorem valid_covertToIndexMap (valid : Valid rowCount map)
    (data : map.hasData = true) : Valid rowCount map.covertToIndexMap := by
  have rowsInside : ∀ row ∈ map.covertToIndexMap.rowIndex, 0 ≤ row ∧ row < rowCount := by
    rw [covertToIndexMap_rowIndex valid data]
    exact fun row member => valid.mem_contents member
  have forward := valid.forward
  have atStart := valid.at_start
  cases kind : map.indexType with
  | id =>
    have unconverted := valid.range_converted kind
    constructor <;> first
      | exact rowsInside
      | simp [covertToIndexMap, unconverted, kind, data, forward]
  | outerIndex =>
    have listStart := valid.list_start kind
    have listEnd := valid.list_end kind
    constructor <;> first
      | exact rowsInside
      | (unfold covertToIndexMap
         split_ifs <;> simp_all)

@[simp]
theorem intersect_indexType (start stop : Int) (map : IndexMap) :
    (map.intersect start stop).indexType = map.indexType := by
  unfold intersect
  split <;> simp_all

@[simp]
theorem intersect_empty (start stop : Int) (map : IndexMap) :
    (map.intersect start stop).empty = false := by
  unfold intersect
  split <;> rfl

theorem mem_intersect_range (isRange : map.indexType = .id) (start stop : Int) (row : Int) :
    row ∈ (map.intersect start stop).contents ↔ row ∈ map.contents ∧ start ≤ row ∧ row < stop := by
  rw [contents_range isRange, contents_range (by simp [isRange])]
  simp only [intersect, isRange, mem_rowRange]
  omega

theorem contents_intersect_list (isList : map.indexType = .outerIndex) (start stop : Int) :
    (map.intersect start stop).contents = if ∃ row ∈ map.contents, start ≤ row ∧ row < stop then
        map.contents.filter fun row => start ≤ row && row < stop
      else
        map.contents := by
  rw [contents_list isList, contents_list (by simp [isList])]
  simp only [intersect, isList]
  have keptIff : (map.rowIndex.filter fun row => start ≤ row && row < stop).isEmpty = true ↔
        ¬ ∃ row ∈ map.rowIndex, start ≤ row ∧ row < stop := by
    simp [List.isEmpty_iff, filter_eq_nil_iff]
  by_cases some : ∃ row ∈ map.rowIndex, start ≤ row ∧ row < stop
  · rw [if_pos some, if_neg (fun isEmpty => keptIff.1 isEmpty some)]
  · rw [if_neg some, if_pos (keptIff.2 some)]

theorem intersect_sublist (isList : map.indexType = .outerIndex) (start stop : Int) :
    (map.intersect start stop).contents.Sublist map.contents := by
  rw [contents_intersect_list isList]
  split_ifs
  · exact filter_sublist
  · exact List.Sublist.refl _

theorem intersect_subset (start stop : Int) {row : Int}
    (member : row ∈ (map.intersect start stop).contents) : row ∈ map.contents := by
  cases kind : map.indexType with
  | id => exact ((mem_intersect_range kind start stop row).1 member).1
  | outerIndex => exact (intersect_sublist kind start stop).subset member

theorem valid_intersect (valid : Valid rowCount map) (start stop : Int) :
    Valid rowCount (map.intersect start stop) := by
  have forward := valid.forward
  cases kind : map.indexType with
  | id =>
    have unused := valid.range_rowIndex kind
    have unconverted := valid.range_converted kind
    have lower := valid.range_start kind
    have upper := valid.range_end kind
    constructor <;> simp [intersect, kind, unused, unconverted, forward, lower, upper]
  | outerIndex =>
    have inside : ∀ row ∈ (map.intersect start stop).rowIndex, 0 ≤ row ∧ row < rowCount := by
      intro row member
      have isList : (map.intersect start stop).indexType = .outerIndex := by
        simp [kind]
      rw [← contents_list isList] at member
      exact valid.mem_contents (intersect_subset start stop member)
    constructor <;> first
      | exact inside
      | simp [intersect, kind, forward]

theorem enumerates_range_forward (isRange : map.indexType = .id) (forward : map.desc = false) :
    Enumerates map (rowRange map.current map.end_) := by
  -- Induction on the number of rows still ahead of the cursor.
  induction remaining : (map.end_ - map.current).toNat generalizing map with
  | zero =>
    rw [rowRange_eq_nil (by omega)]
    exact .done (by simp [eof, forward]; omega)
  | succ count induction =>
    have ahead : map.current < map.end_ := by omega
    have nextMap : map.next = { map with current := map.current + 1 } := by
      simp [next, forward, ahead]
    have row : map.currentRow = map.current := by
      simp [currentRow, isRange]
    rw [rowRange_cons ahead, ← row]
    refine .visit (by simp [eof, forward]; omega) ?_
    rw [nextMap, row]
    exact induction isRange forward (by simp only; omega)

theorem enumerates_list_forward (isList : map.indexType = .outerIndex)
    (forward : map.desc = false) (listEnd : map.end_ = map.rowIndex.length)
    (lower : 0 ≤ map.current) : Enumerates map (map.rowIndex.drop map.current.toNat) := by
  induction remaining : (map.end_ - map.current).toNat generalizing map with
  | zero =>
    rw [drop_of_length_le (by omega)]
    exact .done (by simp [eof, forward]; omega)
  | succ count induction =>
    have ahead : map.current < map.end_ := by omega
    have inside : map.current.toNat < map.rowIndex.length := by omega
    have nextMap : map.next = { map with current := map.current + 1 } := by
      simp [next, forward, ahead]
    have row : map.currentRow = map.rowIndex[map.current.toNat] := by
      simp [currentRow, isList, getD_eq_getElem?_getD, inside]
    have position : (map.current + 1).toNat = map.current.toNat + 1 := by omega
    rw [drop_eq_getElem_cons inside, ← row, ← position]
    refine .visit (by simp [eof, forward]; omega) ?_
    rw [nextMap]
    exact induction isList forward listEnd (by simp only; omega) (by simp only; omega)

theorem enumerates_range_backward (isRange : map.indexType = .id) (backward : map.desc = true) :
    Enumerates map (rowRange map.start (map.current + 1)).reverse := by
  induction remaining : (map.current + 1 - map.start).toNat generalizing map with
  | zero =>
    rw [rowRange_eq_nil (by omega)]
    exact .done (by simp [eof, backward]; omega)
  | succ count induction =>
    have ahead : map.current > map.start - 1 := by omega
    have nextMap : map.next = { map with current := map.current - 1 } := by
      simp only [next, backward, if_true, if_pos ahead]
    have row : map.currentRow = map.current := by
      simp [currentRow, isRange]
    have split : (rowRange map.start (map.current + 1)).reverse = map.currentRow ::
        (rowRange map.start (map.current - 1 + 1)).reverse := by
      rw [rowRange_concat (by omega), reverse_append, row]
      simp
    rw [split]
    refine .visit (by simp [eof, backward]; omega) ?_
    rw [nextMap]
    exact induction isRange backward (by simp only; omega)

theorem enumerates_list_backward (isList : map.indexType = .outerIndex)
    (backward : map.desc = true) (listStart : map.start = 0)
    (upper : map.current < map.rowIndex.length) :
    Enumerates map (map.rowIndex.take (map.current + 1).toNat).reverse := by
  induction remaining : (map.current + 1).toNat generalizing map with
  | zero =>
    rw [take_zero]
    exact .done (by simp [eof, backward, listStart]; omega)
  | succ count induction =>
    have ahead : map.current > map.start - 1 := by omega
    have position : map.current.toNat = count := by omega
    have inside : count < map.rowIndex.length := by omega
    have nextMap : map.next = { map with current := map.current - 1 } := by
      simp only [next, backward, if_true, if_pos ahead]
    have row : map.currentRow = map.rowIndex[count] := by
      simp [currentRow, isList, getD_eq_getElem?_getD, position, inside]
    have split : (map.rowIndex.take (count + 1)).reverse =
        map.currentRow :: (map.rowIndex.take count).reverse := by
      rw [take_succ_eq_append_getElem inside, reverse_append, row]
      simp
    rw [split]
    refine .visit (by simp [eof, backward]; omega) ?_
    rw [nextMap]
    exact induction isList backward listStart (by simp only; omega) (by simp only; omega)

theorem enumerate_eq_of_enumerates {visited : List Int} (visit : Enumerates map visited)
    {fuel : Nat} (enough : visited.length ≤ fuel) : map.enumerate fuel = visited := by
  induction visit generalizing fuel with
  | done atEnd =>
    cases fuel with
    | zero => rfl
    | succ fuel => simp [enumerate, atEnd]
  | visit notAtEnd rest induction =>
    cases fuel with
    | zero => simp at enough
    | succ fuel =>
      have tail : enumerate fuel _ = _ :=
        induction (Nat.le_of_succ_le_succ enough)
      simp [enumerate, notAtEnd, tail]

/--
The loop over the ORDER BY terms, last term first: each term on a sortable
column repositions the map with its own direction.
-/
def applyOrderBys {Column : Type} (sortable : Column → Bool)
    (orderBys : List (OrderBy Column)) (map : IndexMap) : IndexMap :=
  orderBys.foldr (fun term map =>
      if sortable term.iColumn then map.sortBy term.desc else map)
    map

/-- The direction the loop leaves behind: the first sortable term decides. -/
def finalDesc {Column : Type} (sortable : Column → Bool)
    (orderBys : List (OrderBy Column)) : Bool :=
  match orderBys.find? fun term => sortable term.iColumn with
  | some term => term.desc
  | none => false

variable {Column : Type}

theorem applyOrderBys_eq (sortable : Column → Bool) (orderBys : List (OrderBy Column))
    (atStart : map.current = map.start) (forward : map.desc = false) :
    applyOrderBys sortable orderBys map = map.sortBy (finalDesc sortable orderBys) := by
  induction orderBys with
  | nil =>
    cases map
    simp_all [applyOrderBys, finalDesc, sortBy]
  | cons term rest induction =>
    simp only [applyOrderBys, foldr_cons] at induction ⊢
    rw [induction]
    by_cases isSortable : sortable term.iColumn = true
    · simp [isSortable, finalDesc, sortBy]
    · simp [isSortable, finalDesc]

theorem enumerates_sortBy (visitable : Visitable map) (desc : Bool) :
    Enumerates (map.sortBy desc) (if desc then map.contents.reverse else map.contents) := by
  have forward := visitable.forward
  cases kind : map.indexType with
  | id =>
    rw [contents_range kind]
    cases desc with
    | false =>
      have visit : Enumerates (map.sortBy false) _ :=
        enumerates_range_forward kind rfl
      simpa [sortBy] using visit
    | true =>
      have visit : Enumerates (map.sortBy true) _ :=
        enumerates_range_backward kind rfl
      simpa [sortBy] using visit
  | outerIndex =>
    have listStart := visitable.list_start kind
    have listEnd := visitable.list_end kind
    rw [contents_list kind]
    cases desc with
    | false =>
      have visit : Enumerates (map.sortBy false) _ :=
        enumerates_list_forward kind rfl listEnd (by simp [sortBy, listStart])
      simpa [sortBy, listStart] using visit
    | true =>
      have visit : Enumerates (map.sortBy true) _ :=
        enumerates_list_backward kind rfl listStart (by simp [sortBy, listEnd])
      simpa [sortBy, listEnd] using visit

theorem rows_applyOrderBys (visitable : Visitable map) (sortable : Column → Bool)
    (orderBys : List (OrderBy Column)) :
    (applyOrderBys sortable orderBys map).rows =
      if finalDesc sortable orderBys then map.contents.reverse
      else map.contents := by
  rw [applyOrderBys_eq sortable orderBys visitable.at_start visitable.forward]
  apply enumerate_eq_of_enumerates (enumerates_sortBy visitable _)
  have count : map.contents.length = (map.end_ - map.start).toNat := by
    cases kind : map.indexType with
    | id => rw [contents_range kind, length_rowRange]
    | outerIndex =>
      rw [contents_list kind, visitable.list_end kind, visitable.list_start kind]
      simp
  split_ifs
  · simp [count, sortBy]
  · simp [count, sortBy]

theorem mem_rows_applyOrderBys (visitable : Visitable map) (sortable : Column → Bool)
    (orderBys : List (OrderBy Column)) (row : Int) :
    row ∈ (applyOrderBys sortable orderBys map).rows ↔ row ∈ map.contents := by
  rw [rows_applyOrderBys visitable]
  split_ifs
  · exact mem_reverse
  · exact Iff.rfl

end IndexMap

end SysAnalyzer.Table
