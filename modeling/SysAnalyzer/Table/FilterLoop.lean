import SysAnalyzer.Foundation.Run
import SysAnalyzer.Table.TableBase

/-!
# Order and repetition in a filter loop

A filter either keeps some of the rows of the map in their order, or, when the
data flag says that nothing has been filtered yet, appends the rows it admits
to the list.  On a range the second case is harmless, for the list is unused.
It is not on a list: `RemoveNullElements` builds a list and leaves the flag
unset, so the next whole-column filter appends to it.

`AppendSpec` states this for the step of a table's filter loop.  From it follow
the exact condition for a loop that never lists a row twice, and a condition
for one that keeps the rows in ascending order.
-/

namespace SysAnalyzer.Table

open Foundation List

namespace IndexMap

/-- A list that the data flag does not account for. -/
def Reopened (map : IndexMap) : Prop := map.indexType = .outerIndex ∧ map.hasData = false

instance (map : IndexMap) : Decidable map.Reopened := inferInstanceAs (Decidable (_ ∧ _))

section Sublists

variable {rowCount : Int} {map : IndexMap}

theorem rowRange_sublist {start stop start' stop' : Int}
    (lower : start ≤ start') (upper : stop' ≤ stop) :
    (rowRange start' stop').Sublist (rowRange start stop) := by
  apply sublist_of_subperm_of_pairwise (r := (· < ·))
  · apply List.Nodup.subperm
    · exact (rowRange_ascending start' stop').imp fun ordered => ordered.ne
    · intro row member
      rw [mem_rowRange] at member ⊢
      omega
  · exact rowRange_ascending start' stop'
  · exact rowRange_ascending start stop

theorem contents_intersect_sublist (start stop : Int) (map : IndexMap) :
    (map.intersect start stop).contents.Sublist map.contents := by
  cases kind : map.indexType with
  | id =>
    rw [contents_range kind, contents_range (by simp [kind])]
    simp only [intersect, kind]
    exact rowRange_sublist (le_max_left _ _) (min_le_left _ _)
  | outerIndex => exact intersect_sublist kind start stop

theorem contents_filterIdSwitch_sublist
    (upper : Int) (op : ConstraintOp) (v : Int) (map : IndexMap) :
    (map.filterIdSwitch upper op v).contents.Sublist map.contents := by
  unfold filterIdSwitch
  split <;> first
    | exact contents_intersect_sublist _ _ map
    | exact List.Sublist.refl _

theorem contents_filterId_sublist
    (valid : Valid rowCount map) (op : ConstraintOp) (argv : SqliteValue) :
    (map.filterId op argv).contents.Sublist map.contents := by
  unfold filterId
  split_ifs with notInteger
  · exact contents_intersect_sublist 0 0 map
  · rw [← contents_covertIfData valid]
    exact contents_filterIdSwitch_sublist _ _ _ _

theorem contents_cursorFilterId_sublist
    (valid : Valid rowCount map) (bound : Int) (op : ConstraintOp) (argv : SqliteValue) :
    (map.cursorFilterId bound op argv).contents.Sublist map.contents := by
  unfold cursorFilterId
  split_ifs with notInteger
  · exact contents_intersect_sublist 0 0 map
  · rw [← contents_covertIfData valid]
    exact contents_filterIdSwitch_sublist _ _ _ _

theorem append_sublist_of_range (valid : Valid rowCount map) (fresh : map.hasData = false)
    (closed : ¬ map.Reopened) (admits : Int → Bool) :
    (map.rowIndex ++ (rowRange 0 rowCount).filter admits).Sublist map.contents := by
  have isRange : map.indexType = .id := by
    cases kind : map.indexType with
    | id => rfl
    | outerIndex => exact absurd ⟨kind, fresh⟩ closed
  have isEmpty : map.empty = true := by simpa [hasData] using fresh
  have whole := valid.range_fresh isRange isEmpty
  rw [valid.range_rowIndex isRange, contents_range isRange, whole.1, whole.2]
  exact filter_sublist

end Sublists

section Appends

variable {T : Type} [LinearOrder T] [OrderTop T]
variable {rowCount : Int} {map : IndexMap}

variable {column : List T}

section

variable (valid : Valid rowCount map)
include valid

theorem contents_removeNullElements_sublist
    (size : (column.length : Int) = rowCount) (closed : ¬ map.Reopened) :
    (map.removeNullElements column).contents.Sublist map.contents := by
  rw [contents_removeNullElements valid]
  split_ifs with data
  · exact filter_sublist
  · rw [size]
    exact append_sublist_of_range valid (by simpa using data) closed _

theorem contents_mixRange_sublist (op : ConstraintOp) (value : T)
    (size : (column.length : Int) = rowCount) (closed : map.Reopened → mixChecks op value = none) :
    (map.mixRange op value column).contents.Sublist map.contents := by
  cases checks : mixChecks op value with
  | none => rw [contents_mixRange_unknown valid checks]
  | some pair =>
    rcases pair with ⟨firstCheck, scondCheck⟩
    have notReopened : ¬ map.Reopened := by
      intro reopened
      rw [closed reopened] at checks
      cases checks
    rcases contents_mixRange valid checks column with ⟨isList, listed⟩
    rw [contents_list isList, listed]
    split_ifs with data nothing
    · exact List.Sublist.refl _
    · exact filter_sublist
    · rw [size]
      exact append_sublist_of_range valid (by simpa using data) notReopened _

theorem contents_removeNullElements_reopened
    (size : (column.length : Int) = rowCount) (reopened : map.Reopened) :
    (map.removeNullElements column).contents = map.contents ++
      (rowRange 0 rowCount).filter fun row => queueAt column row ≠ ⊤ := by
  rw [contents_removeNullElements valid, contents_list reopened.1, size]
  simp [reopened.2]

theorem contents_mixRange_reopened {op : ConstraintOp} {value : T}
    {firstCheck scondCheck : T → Bool} (known : mixChecks op value = some (firstCheck, scondCheck))
    (size : (column.length : Int) = rowCount) (reopened : map.Reopened) :
    (map.mixRange op value column).contents = map.contents ++
      (rowRange 0 rowCount).filter fun row =>
        scondCheck (queueAt column row) := by
  rcases contents_mixRange valid known column with ⟨isList, listed⟩
  rw [contents_list isList, listed, contents_list reopened.1, size]
  simp [reopened.2]

theorem contents_filterTS_sublist {times : List (Fin (2 ^ 64))}
    (size : (times.length : Int) = rowCount)
    {op : ConstraintOp} (closed : map.Reopened → op ≠ .isNotNull) (argv : SqliteValue) :
    (map.filterTS op argv times).contents.Sublist map.contents := by
  unfold filterTS
  split <;> first
    | exact contents_intersect_sublist _ _ map
    | exact List.Sublist.refl _
    | exact
      contents_removeNullElements_sublist valid size (fun reopened => closed reopened rfl)

end

end Appends

/--
The step of a filter loop over a table with `rowCount` rows.  `admitted` gives
the rows a step appends when it finds no data.
-/
structure AppendSpec {Event : Type} (rowCount : Int)
    (step : IndexMap → Event → Option IndexMap)
    (admitted : Event → Option (Int → Bool)) : Prop where
  valid : ∀ {map event next}, Valid rowCount map → step map event = some next → Valid rowCount next
  returns : ∀ {event admits}, admitted event = some admits →
    ∀ map, ∃ next, step map event = some next
  sublist : ∀ {map event next}, Valid rowCount map → step map event = some next →
    (map.Reopened → admitted event = none) →
    next.contents.Sublist map.contents
  appends : ∀ {map event next admits}, Valid rowCount map →
    step map event = some next → map.Reopened →
    admitted event = some admits →
    next.contents = map.contents ++ (rowRange 0 rowCount).filter admits

section Loop

variable {Event : Type} {rowCount : Int}
variable {step : IndexMap → Event → Option IndexMap}
variable {admitted : Event → Option (Int → Bool)}

def AppendsAgainst (R : Int → Int → Prop) (rowCount : Int)
    (admitted : Event → Option (Int → Bool)) (map : IndexMap) (event : Event) : Prop :=
  map.Reopened ∧ ∃ admits, admitted event = some admits ∧ ∃ row ∈ map.contents,
    ∃ other ∈ (rowRange 0 rowCount).filter admits, ¬ R row other

/-- A step that appends a row the list already has. -/
def Relists (rowCount : Int) (admitted : Event → Option (Int → Bool))
    (map : IndexMap) (event : Event) : Prop :=
  map.Reopened ∧ ∃ admits, admitted event = some admits ∧
    ∃ row ∈ map.contents, row ∈ (rowRange 0 rowCount).filter admits

theorem appendsAgainst_ne_iff (map : IndexMap) (event : Event) :
    AppendsAgainst (· ≠ ·) rowCount admitted map event ↔ Relists rowCount admitted map event := by
  unfold AppendsAgainst Relists
  simp only [ne_eq, not_not]
  apply and_congr_right
  intro _
  apply exists_congr
  intro admits
  apply and_congr_right
  intro _
  constructor
  · rintro ⟨row, listed, other, appended, rfl⟩
    exact ⟨row, listed, appended⟩
  · rintro ⟨row, listed, appended⟩
    exact ⟨row, listed, row, appended, rfl⟩

section

variable (spec : AppendSpec rowCount step admitted)
include spec

theorem AppendSpec.valid_runPartial
    {map final : IndexMap} (valid : Valid rowCount map) {events : List Event}
    (reached : runPartial step map events = some final) : Valid rowCount final := by
  have all : EachPartial step (fun _ _ => True) map events := by
    rw [eachPartial_iff_split]
    intros
    trivial
  exact runPartial_invariant (fun state event next validState _ stepped =>
    spec.valid validState stepped)
    valid all reached

variable {R : Int → Int → Prop}

theorem AppendSpec.pairwise_step (rangeOrdered : (rowRange 0 rowCount).Pairwise R)
    {map next : IndexMap} {event : Event} (valid : Valid rowCount map)
    (ordered : map.contents.Pairwise R) (stepped : step map event = some next)
    (respects : ¬ AppendsAgainst R rowCount admitted map event) : next.contents.Pairwise R := by
  by_cases appending : map.Reopened ∧ admitted event ≠ none
  · rcases Option.ne_none_iff_exists'.1 appending.2 with ⟨admits, isAdmit⟩
    rw [spec.appends valid stepped appending.1 isAdmit, pairwise_append]
    refine ⟨ordered, List.Pairwise.sublist filter_sublist rangeOrdered, ?_⟩
    intro row listed other appended
    by_contra conflict
    exact respects ⟨appending.1, admits, isAdmit, row, listed, other, appended, conflict⟩
  · refine List.Pairwise.sublist (spec.sublist valid stepped ?_) ordered
    intro reopened
    by_contra isSome
    exact appending ⟨reopened, isSome⟩

/--
A pairwise property of the rows holds in every state of a loop exactly when no
step appends a row that breaks it against a listed one.
-/
theorem AppendSpec.pairwise_iff (rangeOrdered : (rowRange 0 rowCount).Pairwise R)
    {map : IndexMap} (valid : Valid rowCount map)
    (ordered : map.contents.Pairwise R) (events : List Event) :
    (∀ before reached, before <+: events → runPartial step map before = some reached →
      reached.contents.Pairwise R) ↔
      EachPartial step (fun map event => ¬ AppendsAgainst R rowCount admitted map event)
        map events := by
  constructor
  · intro always
    rw [eachPartial_iff_split]
    rintro before event after reached split run
      ⟨reopened, admits, isAdmit, row, listed, other, appended, conflict⟩
    rcases spec.returns isAdmit reached with ⟨next, stepped⟩
    have validReached := spec.valid_runPartial valid run
    have runNext : runPartial step map (before ++ [event]) = some next := by
      rw [runPartial_append, run]
      simp [runPartial, stepped]
    have nextOrdered := always (before ++ [event]) next ⟨after, by simp [split]⟩ runNext
    rw [spec.appends validReached stepped reopened isAdmit, pairwise_append] at nextOrdered
    exact conflict (nextOrdered.2.2 row listed other appended)
  · rintro respects before reached ⟨after, rfl⟩ run
    rw [eachPartial_append] at respects
    have preserves : ∀ state event next, Valid rowCount state ∧ state.contents.Pairwise R →
      ¬ AppendsAgainst R rowCount admitted state event → step state event = some next →
        Valid rowCount next ∧ next.contents.Pairwise R := by
      rintro state event next ⟨validState, orderedState⟩ stepRespects stepped
      exact ⟨spec.valid validState stepped,
        spec.pairwise_step rangeOrdered validState orderedState stepped stepRespects⟩
    exact (runPartial_invariant preserves ⟨valid, ordered⟩ respects.1 run).2

theorem AppendSpec.nodup_iff {map : IndexMap} (valid : Valid rowCount map)
    (distinct : map.contents.Nodup) (events : List Event) : (∀ before reached, before <+: events →
      runPartial step map before = some reached → reached.contents.Nodup) ↔
      EachPartial step (fun map event => ¬ Relists rowCount admitted map event) map events := by
  have rangeDistinct : (rowRange 0 rowCount).Pairwise (· ≠ ·) :=
    (rowRange_ascending 0 rowCount).imp fun ordered => ordered.ne
  have exactly := spec.pairwise_iff rangeDistinct valid distinct events
  simp only [appendsAgainst_ne_iff] at exactly
  exact exactly

end

end Loop

end IndexMap

end SysAnalyzer.Table
