import SysAnalyzer.Table.IndexMapMerge

/-!
# The union of two row sets

`Merge` is to join two sets of rows.  It does so for a list on either side when
no row of the first set is above all rows of the second: the other copying loop
never ends.  A range grows to the left without its cursor, and two ranges apart
from each other are joined only when there is nothing to copy.  A range that no
filter has run on is written out as an empty list.
-/

namespace SysAnalyzer.Table

open IndexMap List

/-- A row range or an ascending list of rows, before its visit begins. -/
structure RowSet where
  map : IndexMap
  visitable : Visitable map
  range_rowIndex : map.indexType = .id → map.rowIndex = []
  range_converted : map.indexType = .id → map.converted = false
  ascending : map.rowIndex.Pairwise (· < ·)

/-- The rows that `CovertToIndexMap` writes out. -/
def RowSet.listed (set : RowSet) : List Int :=
  if set.map.indexType = .id ∧ set.map.hasData = false then []
  else set.map.contents

/-- `Merge` returns and leaves the rows of both sets, in ascending order. -/
def Unites (a b : RowSet) : Prop :=
  ∃ merged, a.map.merge b.map = some merged ∧ merged.rows.Pairwise (· < ·) ∧
    ∀ row, row ∈ merged.rows ↔ row ∈ a.map.rows ∨ row ∈ b.map.rows

/-- The ranges for which `Merge` is right. -/
def RangesMeet (a b : RowSet) : Prop :=
  if a.map.start ≤ b.map.start then
    b.map.start ≤ a.map.end_ ∨ b.map.start = a.map.start ∨ a.map.contents = [] ∧ b.map.contents = []
  else b.map.contents = [] ∧ (a.map.hasData = true ∨ a.map.contents = [])

/-- The lists for which `Merge` is right. -/
def ListsMeet (a b : RowSet) : Prop :=
  (∀ row ∈ a.listed, ∃ other ∈ b.listed, row ≤ other) ∧
    ∀ row, row ∈ a.map.contents ∨ row ∈ b.map.contents → row ∈ a.listed ∨ row ∈ b.listed

/-- The sets for which `Merge` is right. -/
def Meet (a b : RowSet) : Prop :=
  if a.map.indexType = .id ∧ b.map.indexType = .id then RangesMeet a b
  else ListsMeet a b

/-! ## The merging loop -/

namespace IndexMap

theorem isSome_mergeLists_iff {a b : List Int} (ofA : a.Pairwise (· < ·))
    (ofB : b.Pairwise (· < ·)) : (mergeLists a b).isSome ↔ ∀ row ∈ a, ∃ other ∈ b, row ≤ other := by
  fun_induction mergeLists a b with
  | case1 b => simp
  | case2 x a =>
    refine iff_of_false nofun fun above => ?_
    rcases above x mem_cons_self with ⟨_, none, _⟩
    cases none
  | case3 x a y b below induction =>
    rw [Option.isSome_map, induction ofA.of_cons ofB, forall_mem_cons]
    exact (and_iff_right ⟨y, by simp, below.le⟩).symm
  | case4 a y b notBelow induction =>
    rw [Option.isSome_map, induction ofA.of_cons ofB.of_cons, forall_mem_cons,
      and_iff_right ⟨y, by simp, le_refl y⟩]
    refine forall₂_congr fun row member => ?_
    have above := not_le.2 ((pairwise_cons.1 ofA).1 row member)
    simp only [mem_cons, exists_eq_or_imp, above, false_or]
  | case5 x a y b notBelow different induction =>
    rw [Option.isSome_map, induction ofA ofB.of_cons]
    refine forall₂_congr fun row member => ?_
    have above : ¬ row ≤ y := by
      rcases mem_cons.1 member with rfl | later
      · omega
      · have := (pairwise_cons.1 ofA).1 row later
        omega
    simp only [mem_cons, exists_eq_or_imp, above, false_or]

theorem mergeLists_spec {a b merged : List Int}
    (isMerged : mergeLists a b = some merged) (ofA : a.Pairwise (· < ·))
    (ofB : b.Pairwise (· < ·)) :
    merged.Pairwise (· < ·) ∧ ∀ row, row ∈ merged ↔ row ∈ a ∨ row ∈ b := by
  fun_induction mergeLists a b generalizing merged with
  | case1 b => simp_all
  | case2 x a => cases isMerged
  | case3 x a y b below induction =>
    rcases Option.map_eq_some_iff.1 isMerged with ⟨rest, isRest, rfl⟩
    rcases induction isRest ofA.of_cons ofB with ⟨ascending, members⟩
    refine ⟨pairwise_cons.2 ⟨fun row member => ?_, ascending⟩, fun row => ?_⟩
    · rcases (members row).1 member with inA | inB
      · exact (pairwise_cons.1 ofA).1 row inA
      · rcases mem_cons.1 inB with rfl | later
        · exact below
        · exact below.trans (rel_of_pairwise_cons ofB later)
    · simp only [mem_cons, members, or_assoc]
  | case4 a y b notBelow induction =>
    rcases Option.map_eq_some_iff.1 isMerged with ⟨rest, isRest, rfl⟩
    rcases induction isRest ofA.of_cons ofB.of_cons with ⟨ascending, members⟩
    refine ⟨pairwise_cons.2 ⟨fun row member => ?_, ascending⟩, fun row => ?_⟩
    · rcases (members row).1 member with inA | inB
      · exact rel_of_pairwise_cons ofA inA
      · exact rel_of_pairwise_cons ofB inB
    · rw [mem_cons, members, mem_cons, mem_cons]
      tauto
  | case5 x a y b notBelow different induction =>
    rcases Option.map_eq_some_iff.1 isMerged with ⟨rest, isRest, rfl⟩
    rcases induction isRest ofA ofB.of_cons with ⟨ascending, members⟩
    refine ⟨pairwise_cons.2 ⟨fun row member => ?_, ascending⟩, fun row => ?_⟩
    · rcases (members row).1 member with inA | inB
      · rcases mem_cons.1 inA with rfl | later
        · omega
        · have := rel_of_pairwise_cons ofA later
          omega
      · exact rel_of_pairwise_cons ofB inB
    · rw [mem_cons, members, mem_cons (l := b)]
      tauto

variable {map : IndexMap}

theorem rows_range (isRange : map.indexType = .id) (forward : map.desc = false)
    (within : map.start ≤ map.current) : map.rows = rowRange map.current map.end_ :=
  enumerate_eq_of_enumerates (enumerates_range_forward isRange forward)
    (by rw [length_rowRange]; omega)

theorem rows_restart (map : IndexMap) (isList : map.indexType = .outerIndex)
    (forward : map.desc = false) : map.restart.rows = map.rowIndex := by
  have visit := @enumerates_list_forward map.restart isList forward rfl (le_refl 0)
  exact enumerate_eq_of_enumerates visit (by simp [restart])

end IndexMap

namespace RowSet

variable (set : RowSet)

theorem rows_eq : set.map.rows = set.map.contents :=
  rows_applyOrderBys set.visitable (fun _ : Unit => false) []

theorem ascending_contents : set.map.contents.Pairwise (· < ·) := by
  cases kind : set.map.indexType with
  | id =>
    rw [contents_range kind]
    exact rowRange_ascending _ _
  | outerIndex =>
    rw [contents_list kind]
    exact set.ascending

theorem ascending_listed : set.listed.Pairwise (· < ·) := by
  rw [listed]
  split_ifs
  · exact Pairwise.nil
  · exact set.ascending_contents

theorem mem_contents_of_listed {row : Int} (member : row ∈ set.listed) :
    row ∈ set.map.contents := by
  rw [listed] at member
  split_ifs at member
  · cases member
  · exact member

theorem listed_eq_nil (none : set.map.contents = []) : set.listed = [] := by
  rw [listed, none, ite_self]

theorem listed_range (isRange : set.map.indexType = .id) :
    set.listed = if set.map.hasData then set.map.contents else [] := by
  cases data : set.map.hasData <;> simp [listed, isRange, data]

theorem rowIndex_covertToIndexMap : set.map.covertToIndexMap.rowIndex = set.listed := by
  cases kind : set.map.indexType with
  | id =>
    rw [listed, covertToIndexMap, set.range_converted kind, contents_range kind]
    cases data : set.map.hasData <;> simp [kind, set.range_rowIndex kind]
  | outerIndex =>
    rw [listed, covertToIndexMap, contents_list kind]
    split_ifs <;> simp_all

theorem desc_covertToIndexMap : set.map.covertToIndexMap.desc = false := by
  rw [covertToIndexMap]
  split_ifs <;> exact set.visitable.forward

end RowSet

variable {a b : RowSet}

theorem unites_iff_of_eq_some {merged : IndexMap} (isMerged : a.map.merge b.map = some merged)
    (ascending : merged.rows.Pairwise (· < ·)) :
    Unites a b ↔ ∀ row, row ∈ merged.rows ↔ row ∈ a.map.contents ∨ row ∈ b.map.contents := by
  rw [Unites, isMerged, a.rows_eq, b.rows_eq]
  constructor
  · rintro ⟨other, same, _, members⟩
    rwa [Option.some.inj same]
  · intro members
    exact ⟨merged, rfl, ascending, members⟩

theorem not_unites_of_eq_none (endless : a.map.merge b.map = none) : ¬ Unites a b := by
  rintro ⟨merged, isMerged, _⟩
  rw [endless] at isMerged
  cases isMerged

theorem contents_eq_nil_iff {map : IndexMap} (isRange : map.indexType = .id) :
    map.contents = [] ↔ map.end_ ≤ map.start := by
  rw [contents_range isRange, ← length_eq_zero_iff, length_rowRange]
  omega

theorem unites_iff_of_meeting (aRange : a.map.indexType = .id) (bRange : b.map.indexType = .id)
    (meeting : (a.map.start ≤ b.map.start ∧ b.map.start ≤ a.map.end_) ∨
      (b.map.start ≤ a.map.start ∧ a.map.start ≤ b.map.end_)) : Unites a b ↔ RangesMeet a b := by
  let merged : IndexMap :=
    { a.map with
      start := min a.map.start b.map.start
      end_ := max a.map.end_ b.map.end_ }
  have isMerged : a.map.merge b.map = some merged := by
    rw [IndexMap.merge, if_pos ⟨aRange, bRange⟩, if_pos meeting]
  have rows : merged.rows = rowRange a.map.start (max a.map.end_ b.map.end_) := by
    rw [← a.visitable.at_start]
    refine rows_range aRange a.visitable.forward ?_
    rw [a.visitable.at_start]
    exact min_le_left _ _
  have ascending : merged.rows.Pairwise (· < ·) := by
    rw [rows]
    exact rowRange_ascending _ _
  rw [unites_iff_of_eq_some isMerged ascending, rows, RangesMeet,
    contents_eq_nil_iff aRange, contents_eq_nil_iff bRange,
    contents_range aRange, contents_range bRange]
  simp only [mem_rowRange]
  split_ifs with order
  · refine iff_of_true (fun row => ?_) (by omega)
    omega
  · -- the rows before the first range are not visited
    refine iff_of_false (fun members => ?_) (by omega)
    have first := members b.map.start
    omega

theorem unites_iff_of_apart (aRange : a.map.indexType = .id) (bRange : b.map.indexType = .id)
    (apart : ¬ ((a.map.start ≤ b.map.start ∧ b.map.start ≤ a.map.end_) ∨
      (b.map.start ≤ a.map.start ∧ a.map.start ≤ b.map.end_))) : Unites a b ↔ RangesMeet a b := by
  have isMerged : a.map.merge b.map =
    if (if a.map.start > b.map.start then b.listed else a.listed).isEmpty then
      some a.map.covertToIndexMap.restart
    else none := by
    rw [IndexMap.merge, if_pos ⟨aRange, bRange⟩, if_neg apart,
      a.rowIndex_covertToIndexMap, b.rowIndex_covertToIndexMap]
  have visited := rows_restart _ (covertToIndexMap_indexType a.map) a.desc_covertToIndexMap
  rw [a.rowIndex_covertToIndexMap] at visited
  have united
    (isSome : a.map.merge b.map = some a.map.covertToIndexMap.restart) :=
    unites_iff_of_eq_some isSome (by rw [visited]; exact a.ascending_listed)
  rw [visited] at united
  rw [RangesMeet]
  by_cases order : a.map.start > b.map.start
  · rw [if_pos order] at isMerged
    rw [if_neg (by omega)]
    cases copied : b.listed with
    | nil =>
      rw [copied] at isMerged
      rw [united isMerged]
      constructor
      · intro members
        have noneOther : b.map.contents = [] := by
          by_contra some
          rw [contents_eq_nil_iff bRange] at some
          have listed := (members b.map.start).2
            (.inr (by rw [contents_range bRange, mem_rowRange]; omega))
          have inside := a.mem_contents_of_listed listed
          rw [contents_range aRange, mem_rowRange] at inside
          omega
        refine ⟨noneOther, or_iff_not_imp_left.2 fun noData => ?_⟩
        rw [a.listed_range aRange, if_neg noData] at members
        exact eq_nil_iff_forall_not_mem.2 fun row inside =>
          not_mem_nil ((members row).2 (.inl inside))
      · rintro ⟨noneOther, data⟩ row
        rw [noneOther, a.listed_range aRange]
        split_ifs with hasData
        · simp
        · simp [data.resolve_left hasData]
    | cons row rows =>
      rw [copied] at isMerged
      refine iff_of_false (not_unites_of_eq_none isMerged) fun meets => ?_
      rw [b.listed_eq_nil meets.1] at copied
      cases copied
  · rw [if_neg order] at isMerged
    rw [if_pos (by omega)]
    have noneLeft : b.map.start ≤ a.map.end_ ∨ b.map.start = a.map.start ∨
      a.map.contents = [] ∧ b.map.contents = [] ↔ a.map.contents = [] ∧ b.map.contents = [] := by
      rw [contents_eq_nil_iff aRange, contents_eq_nil_iff bRange]
      omega
    rw [noneLeft]
    cases copied : a.listed with
    | nil =>
      rw [copied] at isMerged
      rw [united isMerged, copied]
      simp only [not_mem_nil, false_iff, not_or, forall_and, ← eq_nil_iff_forall_not_mem]
    | cons row rows =>
      rw [copied] at isMerged
      refine iff_of_false (not_unites_of_eq_none isMerged) fun meets => ?_
      rw [a.listed_eq_nil meets.1] at copied
      cases copied

theorem unites_iff_of_list (list : ¬ (a.map.indexType = .id ∧ b.map.indexType = .id)) :
    Unites a b ↔ ListsMeet a b := by
  have isMerged : a.map.merge b.map = (mergeLists a.listed b.listed).map fun rows =>
    restart { a.map.covertToIndexMap with rowIndex := rows } := by
    rw [IndexMap.merge, if_neg list, a.rowIndex_covertToIndexMap, b.rowIndex_covertToIndexMap]
  have ends := isSome_mergeLists_iff a.ascending_listed b.ascending_listed
  rw [ListsMeet, ← ends]
  cases merged : mergeLists a.listed b.listed with
  | none =>
    rw [merged, Option.map_none] at isMerged
    exact iff_of_false (not_unites_of_eq_none isMerged) (by simp)
  | some rows =>
    rw [merged, Option.map_some] at isMerged
    rcases mergeLists_spec merged a.ascending_listed b.ascending_listed with
      ⟨ascending, members⟩
    have visited := rows_restart { a.map.covertToIndexMap with rowIndex := rows }
      (covertToIndexMap_indexType a.map) a.desc_covertToIndexMap
    rw [unites_iff_of_eq_some isMerged (by rwa [visited]), visited]
    simp only [members, Option.isSome_some, true_and]
    refine forall_congr' fun row => ⟨Iff.mpr, fun listed => ⟨?_, listed⟩⟩
    exact Or.imp a.mem_contents_of_listed b.mem_contents_of_listed

/-- `Merge` leaves the union exactly for the sets that `Meet` names. -/
theorem unites_iff (a b : RowSet) : Unites a b ↔ Meet a b := by
  rw [Meet]
  split_ifs with ranges
  · by_cases meeting : (a.map.start ≤ b.map.start ∧ b.map.start ≤ a.map.end_) ∨
      (b.map.start ≤ a.map.start ∧ a.map.start ≤ b.map.end_)
    · exact unites_iff_of_meeting ranges.1 ranges.2 meeting
    · exact unites_iff_of_apart ranges.1 ranges.2 meeting
  · exact unites_iff_of_list ranges

/-- A range; `empty` until a filter has run on it. -/
def RowSet.ofRange (start end_ : Int) (empty : Bool) : RowSet where
  map := { Table.ofRange start end_ with empty }
  visitable := ⟨nofun, nofun, rfl, rfl⟩
  range_rowIndex _ := rfl
  range_converted _ := rfl
  ascending := Pairwise.nil

/-- A range grown to the left is visited from where it began, and a range behind
another is copied without end. -/
theorem not_unites_ranges : ¬ Unites (.ofRange 1 3 true) (.ofRange 0 2 true) ∧
    (RowSet.ofRange 5 9 false).map.merge (RowSet.ofRange 1 3 false).map = none := by
  constructor
  · rw [unites_iff_of_meeting rfl rfl (.inr (by decide)), RangesMeet, if_neg (by decide)]
    exact fun meets => absurd meets.1 (by decide)
  · decide

end SysAnalyzer.Table
