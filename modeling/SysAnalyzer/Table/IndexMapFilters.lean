import SysAnalyzer.Table.IndexMapRows

/-!
# The filters as operations on the row set

Each filter of an index map is read here as an exact statement about which
rows of the map it keeps.  Two facts of the source shape all of them: a filter
on a list that would keep no row keeps every row, and the timestamp searches
of a list run over the first `rowIndex.size()` rows of the column, because
`end_` then holds the size of the list.
-/

namespace SysAnalyzer.Table

open Foundation List

section Columns

variable {T : Type} [LinearOrder T] [OrderTop T]

def Ascending (column : List T) : Prop := column.Pairwise (· ≤ ·)

instance (column : List T) : Decidable (Ascending column) :=
  inferInstanceAs (Decidable (column.Pairwise (· ≤ ·)))

section

variable {column : List T} (ascending : Ascending column)
include ascending

theorem queueAt_mono {left right : Int} (lower : 0 ≤ left) (ordered : left ≤ right) :
    queueAt column left ≤ queueAt column right := by
  by_cases rightInside : right.toNat < column.length
  · have leftInside : left.toNat < column.length := by omega
    rw [queueAt, queueAt, getD_eq_getElem _ _ leftInside, getD_eq_getElem _ _ rightInside]
    rcases eq_or_lt_of_le ordered with rfl | strict
    · exact le_rfl
    · exact pairwise_iff_getElem.1 ascending left.toNat right.toNat
        leftInside rightInside (by omega)
  · have outside : queueAt column right = ⊤ :=
      getD_eq_default _ _ (by omega)
    rw [outside]
    exact le_top

theorem lt_lowerBound_iff {first : Int} (lower : 0 ≤ first) (last : Int)
    (v : T) {row : Int} (inside : first ≤ row) :
    row < IndexMap.lowerBound column first last v ↔ row < last ∧ queueAt column row < v := by
  rw [IndexMap.lowerBound, lt_partitionPoint_iff _ inside]
  · simp
  · intro low high lowBound ordered _ highBelow
    simp only [decide_eq_true_eq] at highBelow ⊢
    exact (queueAt_mono ascending (by omega) ordered).trans_lt highBelow

theorem lt_upperBound_iff {first : Int} (lower : 0 ≤ first) (last : Int)
    (v : T) {row : Int} (inside : first ≤ row) :
    row < IndexMap.upperBound column first last v ↔ row < last ∧ queueAt column row ≤ v := by
  rw [IndexMap.upperBound, lt_partitionPoint_iff _ inside]
  · simp
  · intro low high lowBound ordered _ highBelow
    simp only [decide_eq_true_eq] at highBelow ⊢
    exact (queueAt_mono ascending (by omega) ordered).trans highBelow

end

end Columns

namespace IndexMap

def Keeps (map : IndexMap) (test : Int → Prop) (row : Int) : Prop :=
  test row ∨ (map.indexType = .outerIndex ∧ ∀ other ∈ map.contents, ¬ test other)

theorem Keeps.congr {map : IndexMap} {first second : Int → Prop}
    (agree : ∀ row ∈ map.contents, (first row ↔ second row))
    {row : Int} (member : row ∈ map.contents) : map.Keeps first row ↔ map.Keeps second row := by
  unfold Keeps
  rw [agree row member]
  apply or_congr_right
  apply and_congr_right
  intro _
  exact ⟨fun none other inside => (agree other inside).not.1 (none other inside),
    fun none other inside => (agree other inside).not.2 (none other inside)⟩

theorem mem_intersect_iff (map : IndexMap) (start stop : Int) (row : Int) :
    row ∈ (map.intersect start stop).contents ↔ row ∈ map.contents ∧
      map.Keeps (fun row => start ≤ row ∧ row < stop) row := by
  cases kind : map.indexType with
  | id =>
    rw [mem_intersect_range kind]
    simp [Keeps, kind]
  | outerIndex =>
    rw [contents_intersect_list kind]
    simp only [Keeps, kind, true_and]
    by_cases some : ∃ row ∈ map.contents, start ≤ row ∧ row < stop
    · rw [if_pos some]
      rcases some with ⟨witness, inside, window⟩
      constructor
      · intro member
        simp only [mem_filter, Bool.and_eq_true, decide_eq_true_eq] at member
        exact ⟨member.1, Or.inl member.2⟩
      · rintro ⟨member, passes | none⟩
        · simp [member, passes.1, passes.2]
        · exact absurd window (none witness inside)
    · rw [if_neg some]
      constructor
      · intro member
        exact ⟨member, Or.inr fun other inside window => some ⟨other, inside, window⟩⟩
      · exact fun both => both.1

section Timestamps

variable {T : Type} [LinearOrder T] [OrderTop T]
variable {rowCount : Int} {map : IndexMap} {times : List T}

section

variable (valid : Valid rowCount map)
include valid

theorem Valid.start_le {row : Int} (member : row ∈ map.contents) :
    0 ≤ map.start ∧ map.start ≤ row := by
  cases kind : map.indexType with
  | id =>
    rw [contents_range kind, mem_rowRange] at member
    exact ⟨valid.range_start kind, member.1⟩
  | outerIndex =>
    have zero := valid.list_start kind
    have lower := (valid.mem_contents member).1
    omega

theorem mem_intersectabcEqual_iff (ascending : Ascending times) (v : T) (row : Int) :
    row ∈ (map.intersectabcEqual times v).contents ↔ row ∈ map.contents ∧
      map.Keeps (fun row => row < map.end_ ∧ queueAt times row = v) row := by
  rw [intersectabcEqual, mem_intersect_iff]
  apply and_congr_right
  intro member
  apply Keeps.congr _ member
  intro other inside
  have bounds := valid.start_le inside
  have before := lt_lowerBound_iff ascending bounds.1 map.end_ v bounds.2
  have firstLe : map.start ≤ lowerBound times map.start map.end_ v := le_partitionPoint _ _ _
  constructor
  · rintro ⟨lower, upper⟩
    have inRange := (lt_upperBound_iff ascending (bounds.1.trans firstLe) map.end_ v lower).1 upper
    refine ⟨inRange.1, le_antisymm inRange.2 (not_lt.1 ?_)⟩
    intro smaller
    exact absurd (before.2 ⟨inRange.1, smaller⟩) (not_lt.2 lower)
  · rintro ⟨inRange, equal⟩
    have lower : lowerBound times map.start map.end_ v ≤ other := by
      rw [← not_lt, before, equal]
      simp
    exact ⟨lower, (lt_upperBound_iff ascending (bounds.1.trans firstLe) map.end_ v
      lower).2 ⟨inRange, equal.le⟩⟩

theorem mem_intersectGreaterEqual_iff (ascending : Ascending times)
    (bounded : rowCount ≤ invalidInt32) (v : T) (row : Int) :
    row ∈ (map.intersectGreaterEqual times v).contents ↔ row ∈ map.contents ∧
      map.Keeps (fun row => row < map.end_ → v ≤ queueAt times row) row := by
  rw [intersectGreaterEqual, mem_intersect_iff]
  apply and_congr_right
  intro member
  apply Keeps.congr _ member
  intro other inside
  have bounds := valid.start_le inside
  have upper := (valid.mem_contents inside).2
  have before := lt_lowerBound_iff ascending bounds.1 map.end_ v bounds.2
  rw [← not_lt, before]
  simp only [not_and, not_lt]
  exact ⟨fun both => both.1, fun passes => ⟨passes, by omega⟩⟩

theorem mem_intersectLessEqual_iff (ascending : Ascending times) (v : T) (row : Int) :
    row ∈ (map.intersectLessEqual times v).contents ↔ row ∈ map.contents ∧
      map.Keeps (fun row => row < map.end_ ∧ queueAt times row ≤ v) row := by
  rw [intersectLessEqual, mem_intersect_iff]
  apply and_congr_right
  intro member
  apply Keeps.congr _ member
  intro other inside
  have bounds := valid.start_le inside
  rw [lt_upperBound_iff ascending bounds.1 map.end_ v bounds.2]
  exact ⟨fun both => both.2, fun passes => ⟨(valid.mem_contents inside).1, passes⟩⟩

end

end Timestamps

/-! ## Filters that read a whole column -/

section WholeColumn

variable {T : Type} [LinearOrder T] [OrderTop T]
variable {rowCount : Int} {map : IndexMap}

@[simp]
theorem fixSize_rowIndex (map : IndexMap) : map.fixSize.rowIndex = map.rowIndex := by
  unfold fixSize
  split <;> rfl

@[simp]
theorem fixSize_indexType (map : IndexMap) : map.fixSize.indexType = map.indexType := by
  unfold fixSize
  split <;> rfl

@[simp]
theorem fixSize_empty (map : IndexMap) : map.fixSize.empty = map.empty := by
  unfold fixSize
  split <;> rfl

theorem valid_of_list (isList : map.indexType = .outerIndex)
    (listStart : map.start = 0) (atStart : map.current = 0)
    (listEnd : map.end_ = map.rowIndex.length)
    (inside : ∀ row ∈ map.rowIndex, 0 ≤ row ∧ row < rowCount)
    (forward : map.desc = false) : Valid rowCount map := by
  constructor <;> simp_all

theorem start_of_not_hasData (valid : Valid rowCount map) (fresh : map.hasData = false) :
    map.start = 0 := by
  have isEmpty : map.empty = true := by simpa [hasData] using fresh
  cases kind : map.indexType with
  | id => exact (valid.range_fresh kind isEmpty).1
  | outerIndex => exact valid.list_start kind

theorem valid_setData (valid : Valid rowCount map) (bak : List Int) :
    Valid rowCount { map with rowIndexBak := bak, empty := false } where
  range_rowIndex := valid.range_rowIndex
  range_start := valid.range_start
  range_end := valid.range_end
  range_converted := valid.range_converted
  range_fresh := by simp
  list_start := valid.list_start
  list_end := valid.list_end
  list_rows := valid.list_rows
  at_start := valid.at_start
  forward := valid.forward

@[simp]
theorem removeNullElements_indexType (column : List T) (map : IndexMap) :
    (map.removeNullElements column).indexType = .outerIndex := by
  simp [removeNullElements]

theorem contents_removeNullElements (valid : Valid rowCount map) (column : List T) :
    (map.removeNullElements column).contents = if map.hasData then
      map.contents.filter fun row => queueAt column row ≠ ⊤ else
      map.rowIndex ++ (rowRange 0 column.length).filter fun row =>
        queueAt column row ≠ ⊤ := by
  rw [contents_list (by simp)]
  cases data : map.hasData with
  | false => simp [removeNullElements, covertIfData, data]
  | true => simp [removeNullElements, covertIfData, data, covertToIndexMap_rowIndex valid data]

theorem valid_removeNullElements (valid : Valid rowCount map) {column : List T}
    (size : (column.length : Int) = rowCount) : Valid rowCount (map.removeNullElements column) := by
  have inside : ∀ row ∈ (map.removeNullElements column).rowIndex, 0 ≤ row ∧ row < rowCount := by
    intro row member
    rw [← contents_list (by simp), contents_removeNullElements valid] at member
    split_ifs at member
    · exact valid.mem_contents (mem_of_mem_filter member)
    · rcases mem_append.1 member with listed | appended
      · exact valid.list_rows row listed
      · have range := mem_of_mem_filter appended
        rw [mem_rowRange] at range
        omega
  cases data : map.hasData with
  | false =>
    have start := start_of_not_hasData valid data
    apply valid_of_list (by simp) _ _ _ inside
    all_goals simp [removeNullElements, covertIfData, data, fixSize, start, valid.forward]
  | true =>
    have converted := valid_covertToIndexMap valid data
    have start := converted.list_start (by simp)
    apply valid_of_list (by simp) _ _ _ inside
    all_goals
      simp [removeNullElements, covertIfData, data, fixSize, start, converted.forward]

variable {op : ConstraintOp} {value : T} {firstCheck scondCheck : T → Bool}

theorem contents_mixRange (valid : Valid rowCount map)
    (known : mixChecks op value = some (firstCheck, scondCheck)) (column : List T) :
    (map.mixRange op value column).indexType = .outerIndex ∧
      (map.mixRange op value column).rowIndex = if map.hasData then
        if (map.contents.filter fun row =>
          !firstCheck (queueAt column row)).isEmpty then map.contents else
          map.contents.filter fun row => !firstCheck (queueAt column row) else
        map.rowIndex ++ (rowRange 0 column.length).filter fun row =>
          scondCheck (queueAt column row) := by
  cases data : map.hasData with
  | false => simp [mixRange, known, covertIfData, data, processData]
  | true =>
    simp [mixRange, known, covertIfData, data, processData, covertToIndexMap_rowIndex valid data]

theorem contents_mixRange_unknown (valid : Valid rowCount map)
    (unknown : mixChecks op value = none) (column : List T) :
    (map.mixRange op value column).contents = map.contents := by
  cases data : map.hasData with
  | false => simp [mixRange, unknown, covertIfData, data, contents]
  | true =>
    simp [mixRange, unknown, covertIfData, data, contents, covertToIndexMap_rowIndex valid data]

@[simp]
theorem mixRange_empty (op : ConstraintOp) (value : T) (column : List T)
    (map : IndexMap) : (map.mixRange op value column).empty = false := by
  simp [mixRange]

theorem mem_mixRange_iff (valid : Valid rowCount map)
    (known : mixChecks op value = some (firstCheck, scondCheck))
    (column : List T) (data : map.hasData = true) (row : Int) :
    row ∈ (map.mixRange op value column).contents ↔ row ∈ map.contents ∧
      (firstCheck (queueAt column row) = false ∨ ∀ other ∈ map.contents,
        firstCheck (queueAt column other) = true) := by
  obtain ⟨isList, listed⟩ := contents_mixRange valid known column
  rw [contents_list isList, listed, if_pos data]
  split_ifs with nothing
  · rw [List.isEmpty_iff, filter_eq_nil_iff] at nothing
    constructor
    · intro member
      exact ⟨member, Or.inr fun other inside => by simpa using nothing other inside⟩
    · exact fun both => both.1
  · rw [List.isEmpty_iff, filter_eq_nil_iff] at nothing
    rw [mem_filter]
    constructor
    · rintro ⟨member, passes⟩
      exact ⟨member, Or.inl (by simpa using passes)⟩
    · rintro ⟨member, passes | all⟩
      · exact ⟨member, by simpa using passes⟩
      · exact absurd (fun other inside => by simp [all other inside]) nothing

theorem valid_mixRange (valid : Valid rowCount map) (op : ConstraintOp) (value : T)
    {column : List T} (size : (column.length : Int) = rowCount) :
    Valid rowCount (map.mixRange op value column) := by
  cases checks : mixChecks op value with
  | none =>
    cases data : map.hasData with
    | false => simpa [mixRange, checks, covertIfData, data] using valid_setData valid []
    | true =>
      simpa [mixRange, checks, covertIfData, data] using
        valid_setData (valid_covertToIndexMap valid data) []
  | some pair =>
    obtain ⟨firstCheck, scondCheck⟩ := pair
    obtain ⟨isList, listed⟩ := contents_mixRange valid checks column
    have inside : ∀ row ∈ (map.mixRange op value column).rowIndex, 0 ≤ row ∧ row < rowCount := by
      intro row member
      rw [listed] at member
      split_ifs at member
      · exact valid.mem_contents member
      · exact valid.mem_contents (mem_of_mem_filter member)
      · rcases mem_append.1 member with old | appended
        · exact valid.list_rows row old
        · have range := mem_of_mem_filter appended
          rw [mem_rowRange] at range
          omega
    cases data : map.hasData with
    | false =>
      have start := start_of_not_hasData valid data
      apply valid_of_list isList _ _ _ inside
      all_goals
        simp [mixRange, checks, covertIfData, data, processData, fixSize, start, valid.forward]
    | true =>
      have converted := valid_covertToIndexMap valid data
      have start := converted.list_start (by simp)
      apply valid_of_list isList _ _ _ inside
      all_goals
        simp [mixRange, checks, covertIfData, data, processData, fixSize, start, converted.forward]

/-- The comparison an operator of `MixRange` stands for. -/
def mixSatisfies (op : ConstraintOp) (value cell : T) : Prop :=
  match op with
  | .eq => cell = value
  | .ne => cell ≠ value
  | .isNull => cell = ⊤
  | .isNotNull => cell ≠ ⊤
  | .gt => value < cell
  | .ge => value ≤ cell
  | .le => cell ≤ value
  | .lt => cell < value
  | .isNot => True
  | .other _ => True

theorem firstCheck_eq_false_iff
    (known : mixChecks op value = some (firstCheck, scondCheck)) (cell : T) :
    firstCheck cell = false ↔ mixSatisfies op value cell := by
  cases op <;> simp only [mixChecks, Option.some.injEq, Prod.mk.injEq, reduceCtorEq] at known <;>
    obtain ⟨rfl, rfl⟩ := known <;>
    simp [mixSatisfies]

/--
A row that the second checks of `MixRange` miss although it satisfies the
constraint: `≥` and `≤` compare with the largest value of the type instead of
the operand.
-/
def MissedByScondCheck (op : ConstraintOp) (cell : T) : Prop :=
  (op = .ge ∧ cell ≠ ⊤) ∨ (op = .le ∧ cell = ⊤)

theorem scondCheck_eq_true_iff (known : mixChecks op value = some (firstCheck, scondCheck))
    {cell : T} (satisfied : mixSatisfies op value cell) :
    scondCheck cell = true ↔ ¬ MissedByScondCheck op cell := by
  cases op <;> simp only [mixChecks, Option.some.injEq, Prod.mk.injEq, reduceCtorEq] at known <;>
    obtain ⟨rfl, rfl⟩ := known <;>
    simp_all [mixSatisfies, MissedByScondCheck, lt_top_iff_ne_top]
  exact satisfied.ne_top

/-- The rows that `MixRange` drops although they satisfy the constraint. -/
def MixDrops (op : ConstraintOp) (column : List T) (map : IndexMap) (row : Int) : Prop :=
  map.indexType = .id ∧ map.hasData = false ∧ MissedByScondCheck op (queueAt column row)

theorem mem_mixRange_of_satisfies (valid : Valid rowCount map)
    {column : List T} (size : (column.length : Int) = rowCount)
    {row : Int} (member : row ∈ map.contents)
    (satisfied : mixSatisfies op value (queueAt column row)) :
    row ∈ (map.mixRange op value column).contents ↔ ¬ MixDrops op column map row := by
  have inside := valid.mem_contents member
  cases checks : mixChecks op value with
  | none =>
    rw [contents_mixRange_unknown valid checks]
    cases op <;> simp_all [mixChecks, MixDrops, MissedByScondCheck]
  | some pair =>
    obtain ⟨firstCheck, scondCheck⟩ := pair
    cases data : map.hasData with
    | true =>
      rw [mem_mixRange_iff valid checks column data, firstCheck_eq_false_iff checks]
      simp [member, satisfied, MixDrops, data]
    | false =>
      obtain ⟨isList, listed⟩ := contents_mixRange valid checks column
      have admitted := scondCheck_eq_true_iff checks satisfied
      rw [contents_list isList, listed, data]
      cases kind : map.indexType with
      | id =>
        simp only [valid.range_rowIndex kind, Bool.false_eq_true,
          if_false, nil_append, mem_filter, mem_rowRange,
          MixDrops, kind, data, true_and, admitted]
        constructor
        · exact fun both => both.2
        · exact fun kept => ⟨⟨inside.1, by omega⟩, kept⟩
      | outerIndex =>
        rw [contents_list kind] at member
        simp [member, MixDrops, kind]

theorem mixRange_subset (valid : Valid rowCount map) (op : ConstraintOp) (value : T)
    (column : List T) (data : map.hasData = true)
    {row : Int} (member : row ∈ (map.mixRange op value column).contents) : row ∈ map.contents := by
  cases checks : mixChecks op value with
  | none => rwa [contents_mixRange_unknown valid checks] at member
  | some pair => exact ((mem_mixRange_iff valid checks column data row).1 member).1

theorem removeNullElements_subset (valid : Valid rowCount map) (column : List T)
    (data : map.hasData = true)
    {row : Int} (member : row ∈ (map.removeNullElements column).contents) : row ∈ map.contents := by
  rw [contents_removeNullElements valid, if_pos data] at member
  exact mem_of_mem_filter member

theorem removeNullElements_hasData (column : List T) (data : map.hasData = true) :
    (map.removeNullElements column).hasData = true := by
  have isSet : (map.removeNullElements column).empty = false := by
    simp [removeNullElements, covertIfData, data, covertToIndexMap_empty data]
  simp [hasData, isSet]

end WholeColumn

end IndexMap

end SysAnalyzer.Table
