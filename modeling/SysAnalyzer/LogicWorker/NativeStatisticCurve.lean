import SysAnalyzer.Foundation.PropertyMap

/-!
# The curve of native hook statistics

A row has the totals of a call chain since the beginning.  `statisticDataHandler`
turns rows into differences, collected by their times as the keys of an object, and
`handleNativeHookStatisticData` adds them up again.

A point has the latest totals of all call chains at its time.  The points come in
time order: keys that are array indices come by their numbers, and larger ones as
they are added.
-/

namespace SysAnalyzer.LogicWorker

open Foundation List

structure StatisticRow where
  callchainId : Int
  ts : Nat
  applySize : Int
  releaseSize : Int
  applyCount : Int
  releaseCount : Int

structure StatisticRows where
  rows : List StatisticRow
  ordered : rows.Pairwise fun first second => first.ts ≤ second.ts

structure StatisticPoint where
  startTime : Nat
  heapsize : Int
  density : Int
  dur : Int := 0
  maxHeapSize : Int := 0
  maxDensity : Int := 0
  minHeapSize : Int := 0
  minDensity : Int := 0

/-- The variables of `statisticDataHandler`. -/
structure StatisticState where
  callGroupMap : Int → List StatisticRow := fun _ => []
  obj : List (String × StatisticPoint) := []

/-- The loop of `statisticDataHandler`. -/
def handleHook (state : StatisticState) (hook : StatisticRow) : StatisticState :=
  let calls := state.callGroupMap hook.callchainId
  let heapsize :=
    match calls.getLast? with
    | some last => hook.applySize - last.applySize - (hook.releaseSize - last.releaseSize)
    | none => hook.applySize - hook.releaseSize
  let density :=
    match calls.getLast? with
    | some last => hook.applyCount - last.applyCount - (hook.releaseCount - last.releaseCount)
    | none => hook.applyCount - hook.releaseCount
  { callGroupMap :=
      Function.update state.callGroupMap hook.callchainId (calls ++ [hook])
    obj :=
      upsert (toString hook.ts)
        (fun
          | some data =>
            { data with
              startTime := hook.ts
              dur := 0
              heapsize := data.heapsize + heapsize
              density := data.density + density }
          | none => { startTime := hook.ts, heapsize := heapsize, density := density })
        state.obj }

def statisticDataHandler (arr : List StatisticRow) : List StatisticPoint :=
  objectValues (arr.foldl handleHook {}).obj

/-- The pass over the points from one of them, which is added to the next. -/
def accumulate (totalNS : Int) : StatisticPoint → List StatisticPoint → List StatisticPoint
  | point, [] => [{ point with dur := totalNS - point.startTime }]
  | point, next :: rest =>
    { point with dur := next.startTime - point.startTime } :: accumulate totalNS
        { next with
          heapsize := point.heapsize + next.heapsize
          density := point.density + next.density }
        rest

def handleNativeHookStatisticData (totalNS : Int) : List StatisticPoint → List StatisticPoint
  | [] => []
  | first :: rest =>
    let arr := accumulate totalNS first rest
    arr.map fun it =>
      { it with
        maxHeapSize := (arr.map StatisticPoint.heapsize).foldl max 0
        maxDensity := (arr.map StatisticPoint.density).foldl max 0
        minHeapSize := (arr.map StatisticPoint.heapsize).foldl min 0
        minDensity := (arr.map StatisticPoint.density).foldl min 0 }

def StatisticRow.inUse (row : StatisticRow) : Int × Int :=
  (row.applySize - row.releaseSize, row.applyCount - row.releaseCount)

def StatisticPoint.inUse (point : StatisticPoint) : Int × Int := (point.heapsize, point.density)

def latestOf (rows : List StatisticRow) (callchainId : Int) : Int × Int :=
  (((rows.filter fun row => row.callchainId = callchainId).getLast?).map StatisticRow.inUse).getD 0

/-- What the latest rows of all call chains have in use together. -/
def inUseOf (rows : List StatisticRow) : Int × Int :=
  ∑ callchainId ∈ (rows.map StatisticRow.callchainId).toFinset, latestOf rows callchainId

/-- There is a point for every time, with what is in use up to it, and the points
reach without a gap to the end. -/
structure StatisticExact (rows : List StatisticRow) (totalNS : Int)
    (points : List StatisticPoint) : Prop where
  ascending : (points.map StatisticPoint.startTime).Pairwise (· < ·)
  times : ∀ time, time ∈ points.map StatisticPoint.startTime ↔ time ∈ rows.map StatisticRow.ts
  exact : ∀ point ∈ points, point.inUse = inUseOf (rows.filter fun row => row.ts ≤ point.startTime)
  follow : points.IsChain fun point next => point.dur = (next.startTime : Int) - point.startTime
  last : ∀ point ∈ points.getLast?, point.dur = totalNS - point.startTime

theorem inUseOf_concat (rows : List StatisticRow) (hook : StatisticRow) :
    inUseOf (rows ++ [hook]) = inUseOf rows + (hook.inUse - latestOf rows hook.callchainId) := by
  have own : latestOf (rows ++ [hook]) hook.callchainId = hook.inUse := by
    simp [latestOf, filter_append]
  have others : ∀ callchainId ≠ hook.callchainId,
    latestOf (rows ++ [hook]) callchainId = latestOf rows callchainId := by
    intro callchainId different
    simp [latestOf, filter_append, Ne.symm different]
  unfold inUseOf
  rw [map_append, map_singleton, toFinset_append,
    toFinset_cons, toFinset_nil, insert_empty_eq, Finset.union_comm,
    ← Finset.insert_eq]
  generalize chains : (rows.map StatisticRow.callchainId).toFinset = ids
  have known : ∑ callchainId ∈ ids, latestOf rows callchainId =
    ∑ callchainId ∈ insert hook.callchainId ids, latestOf rows callchainId := by
    refine Finset.sum_subset (Finset.subset_insert _ _) ?_
    intro callchainId _ absent
    have none : rows.filter (fun row => row.callchainId = callchainId) = [] := by
      rw [filter_eq_nil_iff]
      intro row member isChain
      refine absent ?_
      rw [← chains, mem_toFinset, ← of_decide_eq_true isChain]
      exact mem_map_of_mem member
    rw [latestOf, none]
    rfl
  rw [known, ← Finset.add_sum_erase _ _ (Finset.mem_insert_self _ ids),
    ← Finset.add_sum_erase _ _ (Finset.mem_insert_self _ ids), own,
    Finset.sum_congr rfl fun callchainId member =>
      others callchainId (Finset.ne_of_mem_erase member)]
  abel

section Keys

variable {Value : Type}

theorem arrayIndex_toString (time : Nat) :
    arrayIndex (toString time) = if time < 2 ^ 32 - 1 then some time else none := by
  unfold arrayIndex
  rw [show toString time = time.repr from rfl, Nat.toNat?_repr]
  simp

section

variable {entries : List (Nat × Value)}
  (ascending : (entries.map Prod.fst).Pairwise (· < ·))
include ascending

theorem filter_append_of_ascending (bound : Nat) : (entries.filter fun entry => entry.1 < bound) ++
    (entries.filter fun entry => !decide (entry.1 < bound)) =
    entries := by
  induction entries with
  | nil => rfl
  | cons entry entries induction =>
    rw [map_cons, pairwise_cons] at ascending
    by_cases below : entry.1 < bound
    · simpa [below] using induction ascending.2
    · have later : ∀ other ∈ entries, bound ≤ other.1 := by
        intro other member
        have above := ascending.1 other.1 (mem_map_of_mem member)
        omega
      rw [filter_eq_nil_iff.2, filter_eq_self.2, nil_append]
      · simp only [forall_mem_cons, Bool.not_eq_true', decide_eq_false_iff_not, not_lt]
        exact ⟨not_lt.1 below, later⟩
      · simp only [forall_mem_cons, decide_eq_true_eq, not_lt]
        exact ⟨not_lt.1 below, later⟩

theorem objectValues_of_ascending :
    objectValues (entries.map fun entry => (toString entry.1, entry.2)) = entries.map Prod.snd := by
  have indexed : ∀ entry : Nat × Value,
    isIndexed (toString entry.1, entry.2) = decide (entry.1 < 2 ^ 32 - 1) := by
    intro entry
    unfold isIndexed
    rw [arrayIndex_toString]
    split_ifs with below
    · exact (decide_eq_true below).symm
    · exact (decide_eq_false below).symm
  have sorted : ((entries.filter fun entry => entry.1 < 2 ^ 32 - 1).map
    fun entry => (toString entry.1, entry.2)).Pairwise IndexLe := by
    rw [pairwise_map]
    refine List.Pairwise.imp_of_mem ?_ ((pairwise_map.1 ascending).filter _)
    intro first second ofFirst ofSecond below
    rw [mem_filter, decide_eq_true_iff] at ofFirst ofSecond
    unfold IndexLe
    rw [arrayIndex_toString, arrayIndex_toString, if_pos ofFirst.2, if_pos ofSecond.2]
    exact below.le
  unfold objectValues objectEntries
  rw [filter_map, filter_map]
  simp only [Function.comp_def, indexed]
  rw [sorted.insertionSort_eq, ← map_append, filter_append_of_ascending ascending, map_map]
  rfl

end

end Keys

/-- The points have some sums in use up to their times. -/
def Accumulates (inUse : Nat → Int × Int) : (before : Int × Int) → List StatisticPoint → Prop
  | _, [] => True
  | before, point :: rest =>
    before + point.inUse = inUse point.startTime ∧ Accumulates inUse (before + point.inUse) rest

theorem accumulates_concat {inUse : Nat → Int × Int} {before : Int × Int}
    {points : List StatisticPoint} {point : StatisticPoint} :
    Accumulates inUse before (points ++ [point]) ↔ Accumulates inUse before points ∧
      before + (points.map StatisticPoint.inUse).sum + point.inUse = inUse point.startTime := by
  induction points generalizing before with
  | nil => simp [Accumulates]
  | cons first rest induction =>
    simp only [cons_append, Accumulates, induction, map_cons, sum_cons, and_assoc, add_assoc]

theorem Accumulates.congr {inUse other : Nat → Int × Int} {before : Int × Int}
    {points : List StatisticPoint} (accumulates : Accumulates inUse before points)
    (same : ∀ point ∈ points, inUse point.startTime = other point.startTime) :
    Accumulates other before points := by
  induction points generalizing before with
  | nil => trivial
  | cons point rest induction =>
    rw [forall_mem_cons] at same
    exact ⟨accumulates.1.trans same.1, induction accumulates.2 same.2⟩

/-- The points of some rows: each adds to those before what came up at its time. -/
structure Collected (rows : List StatisticRow) (state : StatisticState)
    (points : List StatisticPoint) : Prop where
  calls : ∀ callchainId, state.callGroupMap callchainId =
    rows.filter fun row => row.callchainId = callchainId
  obj : state.obj = (points.map fun point => (point.startTime, point)).map fun entry =>
    (toString entry.1, entry.2)
  ascending : (points.map StatisticPoint.startTime).Pairwise (· < ·)
  times : ∀ time, time ∈ points.map StatisticPoint.startTime ↔ time ∈ rows.map StatisticRow.ts
  accumulates : Accumulates (fun time => inUseOf (rows.filter fun row => row.ts ≤ time)) 0 points
  total : (points.map StatisticPoint.inUse).sum = inUseOf rows

def added (rows : List StatisticRow) (hook : StatisticRow) : Int × Int :=
  hook.inUse - latestOf rows hook.callchainId

def entryOf (rows : List StatisticRow) (hook : StatisticRow) :
    Option StatisticPoint → StatisticPoint
  | some data =>
    { data with
      startTime := hook.ts
      dur := 0
      heapsize := data.heapsize + (added rows hook).1
      density := data.density + (added rows hook).2 }
  | none =>
    { startTime := hook.ts
      heapsize := (added rows hook).1
      density := (added rows hook).2 }

variable {rows : List StatisticRow} {state : StatisticState}
  {points : List StatisticPoint}

theorem Collected.handleHook_eq (collected : Collected rows state points) (hook : StatisticRow) :
    handleHook state hook =
      { callGroupMap := fun callchainId =>
          (rows ++ [hook]).filter fun row => row.callchainId = callchainId
        obj := upsert (toString hook.ts) (entryOf rows hook) state.obj } := by
  unfold handleHook
  rw [collected.calls hook.callchainId]
  refine congrArg₂ StatisticState.mk ?_ ?_
  · funext callchainId
    by_cases same : callchainId = hook.callchainId
    · subst same
      simp [filter_append]
    · simp [filter_append, Ne.symm same, same, collected.calls]
  · congr 1
    funext data
    unfold entryOf added latestOf
    cases (rows.filter fun row =>
      row.callchainId = hook.callchainId).getLast? with
    | none => cases data <;> simp [StatisticRow.inUse]
    | some last => cases data <;> simp [StatisticRow.inUse] <;> constructor <;> ring

theorem filter_concat_of_lt (rows : List StatisticRow) {hook : StatisticRow}
    {time : Nat} (earlier : time < hook.ts) :
    ((rows ++ [hook]).filter fun row => row.ts ≤ time) = rows.filter fun row => row.ts ≤ time := by
  simp [filter_append, earlier]

/-- A row that is not earlier than the others changes the last point or adds one. -/
theorem Collected.handleHook (collected : Collected rows state points)
    {hook : StatisticRow} (latest : ∀ row ∈ rows, row.ts ≤ hook.ts) :
    ∃ points', Collected (rows ++ [hook]) (LogicWorker.handleHook state hook) points' := by
  have all : ((rows ++ [hook]).filter fun row => row.ts ≤ hook.ts) = rows ++ [hook] := by
    rw [filter_eq_self]
    simpa [or_imp, forall_and] using latest
  have whole : inUseOf (rows ++ [hook]) = inUseOf rows + added rows hook := inUseOf_concat rows hook
  have keys : ∀ some : List StatisticPoint, (∀ point ∈ some, point.startTime < hook.ts) →
    toString hook.ts ∉ ((some.map fun point =>
      (point.startTime, point)).map fun entry =>
        (toString entry.1, entry.2)).map Prod.fst := by
    intro some earlier isKey
    simp only [mem_map] at isKey
    rcases isKey with ⟨_, ⟨_, ⟨point, member, rfl⟩, rfl⟩, same⟩
    exact (earlier point member).ne (Nat.repr_injective same)
  have before : ∀ {some : List StatisticPoint}, Accumulates (fun time =>
    inUseOf (rows.filter fun row => row.ts ≤ time)) 0 some →
    (∀ point ∈ some, point.startTime < hook.ts) → Accumulates (fun time => inUseOf
      ((rows ++ [hook]).filter fun row => row.ts ≤ time)) 0 some :=
    fun accumulates earlier => accumulates.congr fun point member => by
      rw [filter_concat_of_lt rows (earlier point member)]
  have bounded : ∀ point ∈ points, point.startTime ≤ hook.ts := by
    intro point member
    rcases mem_map.1 ((collected.times _).1 (mem_map_of_mem member))
      with ⟨row, ofRows, same⟩
    exact same ▸ latest row ofRows
  rw [collected.handleHook_eq, collected.obj]
  by_cases known : ∃ others last, points = others ++ [last] ∧ last.startTime = hook.ts
  · rcases known with ⟨others, last, rfl, isTime⟩
    have ascending := collected.ascending
    rw [map_append, pairwise_append] at ascending
    have earlier : ∀ point ∈ others, point.startTime < hook.ts := by
      intro point member
      rw [← isTime]
      exact ascending.2.2 _ (mem_map_of_mem member) _ (by simp)
    have accumulates := accumulates_concat.1 collected.accumulates
    have total := collected.total
    rw [map_append, sum_append, map_singleton, sum_singleton] at total
    have more : (entryOf rows hook (some last)).inUse = last.inUse + added rows hook := rfl
    refine ⟨others ++ [entryOf rows hook (some last)],
      { calls := fun _ => rfl
        obj := ?_
        ascending := ?_
        times := ?_
        accumulates := ?_
        total := ?_ }⟩
    · rw [map_append, map_append, upsert_append _ (keys others earlier)]
      simp [upsert, isTime, entryOf]
    · have same := collected.ascending
      rw [map_append, map_singleton, isTime] at same
      simpa [entryOf] using same
    · intro time
      have same := collected.times time
      rw [map_append, map_singleton, isTime] at same
      have isNow : (entryOf rows hook (some last)).startTime = hook.ts := rfl
      rw [map_append, map_singleton, isNow, same, map_append,
        map_singleton, mem_append, mem_singleton]
      refine ⟨.inl, fun found => found.elim id ?_⟩
      rintro rfl
      exact same.1 (by simp)
    · refine accumulates_concat.2 ⟨before accumulates.1 earlier, ?_⟩
      have isNow : (entryOf rows hook (some last)).startTime = hook.ts := rfl
      rw [isNow, all, whole, ← total, more, zero_add, add_assoc]
    · rw [map_append, sum_append, map_singleton, sum_singleton, more, whole, ← total, add_assoc]
  · have earlier : ∀ point ∈ points, point.startTime < hook.ts := by
      intro point member
      refine lt_of_le_of_ne (bounded point member) fun isTime => known ?_
      rcases eq_nil_or_concat points with rfl | ⟨others, last, rfl⟩
      · cases member
      · rw [concat_eq_append] at *
        refine ⟨others, last, rfl, ?_⟩
        refine le_antisymm (bounded last (by simp)) ?_
        rcases mem_append.1 member with ofOthers | isLast
        · have ascending := collected.ascending
          rw [map_append, pairwise_append] at ascending
          rw [← isTime]
          exact (ascending.2.2 _ (mem_map_of_mem ofOthers) _ (by simp)).le
        · rw [← mem_singleton.1 isLast, isTime]
    have new : (entryOf rows hook none).inUse = added rows hook := rfl
    have isNow : (entryOf rows hook none).startTime = hook.ts := rfl
    refine ⟨points ++ [entryOf rows hook none],
      { calls := fun _ => rfl
        obj := ?_
        ascending := ?_
        times := ?_
        accumulates := ?_
        total := ?_ }⟩
    · rw [upsert_of_not_mem _ (keys points earlier)]
      simp [entryOf]
    · rw [map_append, pairwise_append]
      refine ⟨collected.ascending, pairwise_singleton _ _, ?_⟩
      intro time ofPoints next isNext
      rcases mem_map.1 ofPoints with ⟨point, member, rfl⟩
      rw [mem_singleton.1 isNext, isNow]
      exact earlier point member
    · intro time
      rw [map_append, map_append, mem_append, mem_append, collected.times]
      rfl
    · refine accumulates_concat.2 ⟨before collected.accumulates earlier, ?_⟩
      rw [isNow, all, whole, collected.total, new, zero_add]
    · rw [map_append, sum_append, map_singleton, sum_singleton, new, whole, collected.total]

theorem exists_collected (ordered : rows.Pairwise fun first second => first.ts ≤ second.ts) :
    ∃ points, Collected rows (rows.foldl LogicWorker.handleHook {}) points := by
  induction rows using reverseRecOn with
  | nil => exact ⟨[], fun _ => rfl, rfl, .nil, by simp, trivial, rfl⟩
  | append_singleton rows hook induction =>
    rw [pairwise_append] at ordered
    rcases induction ordered.1 with ⟨points, collected⟩
    rw [foldl_append]
    exact collected.handleHook fun row member => ordered.2.2 row member hook (by simp)

theorem accumulate_spec {inUse : Nat → Int × Int} {before : Int × Int}
    (totalNS : Int) {point next : StatisticPoint} {rest : List StatisticPoint}
    (accumulates : Accumulates inUse before (point :: rest))
    (sameTime : next.startTime = point.startTime) (isSum : next.inUse = before + point.inUse) :
    ∃ first others, accumulate totalNS next rest = first :: others ∧
      (first :: others).map StatisticPoint.startTime =
        (point :: rest).map StatisticPoint.startTime ∧
      (∀ point ∈ first :: others, point.inUse = inUse point.startTime) ∧
      (first :: others).IsChain (fun point next =>
        point.dur = (next.startTime : Int) - point.startTime) ∧
      ∀ point ∈ (first :: others).getLast?, point.dur = totalNS - point.startTime := by
  induction rest generalizing before point next with
  | nil =>
    refine ⟨_, [], rfl, ?_, ?_, isChain_singleton _, ?_⟩
    · simp [sameTime]
    · rw [forall_mem_singleton]
      exact isSum.trans (accumulates.1.trans (congrArg inUse sameTime.symm))
    · simp
  | cons later rest induction =>
    let sum : StatisticPoint :=
      { later with
        heapsize := next.heapsize + later.heapsize
        density := next.density + later.density }
    have isNext : sum.inUse = before + point.inUse + later.inUse := by
      rw [← isSum]
      rfl
    rcases induction accumulates.2 (rfl : sum.startTime = _) isNext with
      ⟨first, others, made, times, exact, follow, last⟩
    rw [accumulate, made]
    have firstTime : first.startTime = later.startTime := by simpa using congrArg head? times
    refine ⟨_, _, rfl, ?_, ?_, ?_, ?_⟩
    · rw [map_cons, times, map_cons, map_cons, sameTime]
      rfl
    · rw [forall_mem_cons]
      exact ⟨isSum.trans (accumulates.1.trans (congrArg inUse sameTime.symm)), exact⟩
    · rw [isChain_cons_cons]
      exact ⟨by rw [firstTime], follow⟩
    · exact last

/--
The points of the curve are the times of the rows in order, and each holds the
size and the count in use after every row up to its time.
-/
theorem statistic_exact (rows : StatisticRows) (totalNS : Int) :
    StatisticExact rows.rows totalNS (handleNativeHookStatisticData totalNS
      (statisticDataHandler rows.rows)) := by
  rcases exists_collected rows.ordered with ⟨points, collected⟩
  have values : statisticDataHandler rows.rows = points := by
    unfold statisticDataHandler
    rw [collected.obj, objectValues_of_ascending, map_map]
    · exact map_id _
    · rw [map_map]
      exact collected.ascending
  rw [values]
  cases points with
  | nil =>
    refine ⟨.nil, collected.times, by simp [handleNativeHookStatisticData],
      .nil, by simp [handleNativeHookStatisticData]⟩
  | cons point rest =>
    rcases accumulate_spec totalNS collected.accumulates rfl (zero_add _).symm with
      ⟨first, others, made, times, exact, follow, last⟩
    unfold handleNativeHookStatisticData
    dsimp only
    rw [made]
    refine ⟨?_, ?_, ?_, ?_, ?_⟩
    · rw [map_map]
      exact times ▸ collected.ascending
    · intro time
      rw [map_map, ← collected.times]
      exact Iff.of_eq (congrArg (time ∈ ·) times)
    · intro it member
      rcases mem_map.1 member with ⟨point, ofMade, rfl⟩
      exact exact point ofMade
    · rw [isChain_map]
      exact follow
    · intro it isLast
      rw [getLast?_map, Option.mem_def, Option.map_eq_some_iff] at isLast
      rcases isLast with ⟨point, ofMade, rfl⟩
      exact last point ofMade

/-- At the second time one chain has released what it had, and another has 4. -/
def twoTimes : StatisticRows where
  rows := [⟨1, 0, 8, 0, 1, 0⟩, ⟨2, 5, 4, 0, 1, 0⟩, ⟨1, 5, 8, 8, 1, 1⟩]
  ordered := by decide

theorem statistic_exact_twoTimes :
    StatisticExact twoTimes.rows 10
      (handleNativeHookStatisticData 10 (statisticDataHandler twoTimes.rows)) :=
  statistic_exact twoTimes 10

end SysAnalyzer.LogicWorker
