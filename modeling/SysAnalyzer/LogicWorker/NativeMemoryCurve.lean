import Mathlib

/-!
# The curve of native memory

`resolvingActionNativeMemoryChartData` draws the events of one kind as points.  An
event too close behind the last point is left out, and what it adds waits in two
counters for the next point.

Every point has the exact totals of the events up to its own, and the points
follow each other without a gap.
-/

namespace SysAnalyzer.LogicWorker

open List

structure NativeEvent where
  startTime : Int
  heapSize : Int
  eventType : Nat

namespace NativeEvent

/-- Allocations and maps add, the other events take away. -/
def isApply (ne : NativeEvent) : Bool :=
  ne.eventType == 0 || ne.eventType == 1

/-- What an event adds to the number of blocks. -/
def density (ne : NativeEvent) : Int :=
  if ne.isApply then 1 else -1

def size (ne : NativeEvent) : Int :=
  if ne.isApply then ne.heapSize else 0 - ne.heapSize

end NativeEvent

/-- `HeapStruct`; the duration of the last point is not known at first. -/
structure HeapStruct where
  startTime : Int
  dur : Option Int := none
  density : Int
  heapsize : Int
  maxHeapSize : Int := 0
  maxDensity : Int := 0
  minHeapSize : Int := 0
  minDensity : Int := 0

/-- The variables of `resolvingActionNativeMemoryChartData`. -/
structure ChartState where
  arr : List HeapStruct := []
  nmMaxSize : Int := 0
  nmMaxDensity : Int := 0
  nmMinSize : Int := 0
  nmMinDensity : Int := 0
  nmTempSize : Int := 0
  nmTempDensity : Int := 0

def putArr (filterLevel : Int) (state : ChartState) (ne : NativeEvent)
    (finish : Bool) : ChartState :=
  match state.arr.getLast? with
  | none =>
    { state with
      arr :=
        [{ startTime := ne.startTime
           density := ne.density
           heapsize := ne.size }]
      nmMaxSize := ne.size
      nmMaxDensity := ne.density
      nmMinSize := ne.size
      nmMinDensity := ne.density }
  | some last =>
    let dur := ne.startTime - last.startTime
    let arr := state.arr.dropLast ++ [{ last with dur := some dur }]
    if dur > filterLevel || finish then
      let density := last.density + state.nmTempDensity + ne.density
      let heapsize := last.heapsize + state.nmTempSize + ne.size
      { arr :=
          arr ++
            [{ startTime := ne.startTime
               density := density
               heapsize := heapsize }]
        nmMaxSize := max state.nmMaxSize heapsize
        nmMaxDensity := max state.nmMaxDensity density
        nmMinSize := min state.nmMinSize heapsize
        nmMinDensity := min state.nmMinDensity density
        nmTempSize := 0
        nmTempDensity := 0 }
    else
      { state with
        arr := arr
        nmTempSize := state.nmTempSize + ne.size
        nmTempDensity := state.nmTempDensity + ne.density }

def getFilterLevel (len : Nat) : Int :=
  if len > 3000000 then 500000
  else if len > 2000000 then 300000
  else if len > 1000000 then 100000
  else if len > 500000 then 50000
  else if len > 300000 then 20000
  else if len > 150000 then 10000
  else 0

def putAll (filterLevel : Int) (events : List NativeEvent) : ChartState :=
  events.zipIdx.foldl (fun state item =>
      putArr filterLevel state item.1 (item.2 == events.length - 1))
    {}

/-- The events of the worker, in time order, and the types drawn so far. -/
structure NativeMemoryWorker where
  nativeMemoryData : List NativeEvent
  chartComplete : List Nat := []
  ordered : nativeMemoryData.Pairwise fun first second =>
    first.startTime ≤ second.startTime

namespace NativeMemoryWorker

variable (worker : NativeMemoryWorker)

def selected (nativeMemoryType : Nat) : List NativeEvent :=
  if nativeMemoryType = 1 then
    worker.nativeMemoryData.filter fun ne => ne.eventType = 0 ∨ ne.eventType = 2
  else if nativeMemoryType = 2 then
    worker.nativeMemoryData.filter fun ne => ne.eventType = 1 ∨ ne.eventType = 3
  else
    worker.nativeMemoryData

/-- `resolvingActionNativeMemoryChartData`.  The events are dropped as soon as all
three types are drawn. -/
def resolvingActionNativeMemoryChartData (nativeMemoryType : Nat)
    (totalNS : Int) : List HeapStruct × NativeMemoryWorker :=
  let temp := worker.selected nativeMemoryType
  let state := putAll (getFilterLevel temp.length) temp
  let arr :=
    match state.arr.getLast? with
    | none => state.arr
    | some last =>
      state.arr.dropLast ++ [{ last with dur := some (totalNS - last.startTime) }]
  let chartComplete := nativeMemoryType :: worker.chartComplete
  (arr.map fun heapStruct =>
      { heapStruct with
        maxHeapSize := state.nmMaxSize
        maxDensity := state.nmMaxDensity
        minHeapSize := state.nmMinSize
        minDensity := state.nmMinDensity },
    if 0 ∈ chartComplete ∧ 1 ∈ chartComplete ∧ 2 ∈ chartComplete then
      { nativeMemoryData := []
        chartComplete := chartComplete
        ordered := .nil }
    else
      { worker with chartComplete := chartComplete })

end NativeMemoryWorker

structure IsTotal (events : List NativeEvent) (index : Nat)
    (point : HeapStruct) : Prop where
  time : (events[index]?).map NativeEvent.startTime = some point.startTime
  heapsize : point.heapsize = ((events.take (index + 1)).map NativeEvent.size).sum
  density : point.density = ((events.take (index + 1)).map NativeEvent.density).sum

def Follows (point next : HeapStruct) : Prop :=
  point.dur = some (next.startTime - point.startTime) ∧ point.startTime ≤ next.startTime

/-- The points are the totals at some of the events, the first and the last among
them, and reach without a gap from the first one to the end. -/
structure CurveExact (events : List NativeEvent) (totalNS : Int)
    (arr : List HeapStruct) : Prop where
  totals : ∃ kept : List Nat, List.Forall₂ (IsTotal events) kept arr ∧ kept.Pairwise (· < ·) ∧
        (events ≠ [] → kept.head? = some 0 ∧ kept.getLast? = some (events.length - 1))
  follow : arr.IsChain Follows
  last : ∀ point ∈ arr.getLast?, point.dur = some (totalNS - point.startTime)

/-- The points of some first events.  The last point and the counters together are
the totals of all these events. -/
structure Put (events : List NativeEvent) (count : Nat) (state : ChartState)
    (front : List Nat) (index : Nat) (before : List HeapStruct)
    (last : HeapStruct) : Prop where
  arr : state.arr = before ++ [last]
  totals : List.Forall₂ (IsTotal events) front before
  isTotal : IsTotal events index last
  ascending : (front ++ [index]).Pairwise (· < ·)
  first : (front ++ [index]).head? = some 0
  within : index < count
  follow : (before ++ [last]).IsChain Follows
  heapsize : last.heapsize + state.nmTempSize = ((events.take count).map NativeEvent.size).sum
  density : last.density + state.nmTempDensity = ((events.take count).map NativeEvent.density).sum

variable {events : List NativeEvent} {count : Nat} {state : ChartState}
  {front : List Nat} {index : Nat} {before : List HeapStruct}
  {last : HeapStruct}

theorem isChain_with_dur (follow : (before ++ [last]).IsChain Follows) (dur : Option Int) :
    (before ++ [{ last with dur := dur }]).IsChain Follows := by
  rw [isChain_append] at follow ⊢
  refine ⟨follow.1, isChain_singleton _, ?_⟩
  intro point ofBefore next isNext
  cases isNext
  exact follow.2.2 point ofBefore last rfl

theorem IsTotal.with_dur (total : IsTotal events index last)
    (dur : Option Int) : IsTotal events index { last with dur := dur } :=
  ⟨total.time, total.heapsize, total.density⟩

/-- The next event goes to the last point, to the counters or to a new point. -/
theorem Put.putArr (put : Put events count state front index before last)
    (filterLevel : Int) {ne : NativeEvent} (isNext : events[count]? = some ne)
    (later : last.startTime ≤ ne.startTime) (finish : Bool) :
    ∃ front' index' before' last',
      Put events (count + 1) (LogicWorker.putArr filterLevel state ne finish)
          front' index' before' last' ∧
        (finish = true → index' = count) := by
  have sizes : ((events.take (count + 1)).map NativeEvent.size).sum =
      ((events.take count).map NativeEvent.size).sum + ne.size := by
    simp [take_add_one, isNext]
  have densities : ((events.take (count + 1)).map NativeEvent.density).sum =
      ((events.take count).map NativeEvent.density).sum + ne.density := by
    simp [take_add_one, isNext]
  have follow := isChain_with_dur put.follow (some (ne.startTime - last.startTime))
  have isLast : state.arr.getLast? = some last := by simp [put.arr]
  unfold LogicWorker.putArr
  rw [isLast]
  dsimp only
  rw [put.arr, dropLast_concat]
  split_ifs with isPut
  · refine ⟨front ++ [index], count,
      before ++ [{ last with dur := some (ne.startTime - last.startTime) }],
      { startTime := ne.startTime
        density := last.density + state.nmTempDensity + ne.density
        heapsize := last.heapsize + state.nmTempSize + ne.size }, ?_,
      fun _ => rfl⟩
    refine
      { arr := rfl
        totals := ?_
        isTotal := ⟨by rw [isNext]; rfl, ?_, ?_⟩
        ascending := ?_
        first := ?_
        within := Nat.lt_succ_self count
        follow := ?_
        heapsize := ?_
        density := ?_ }
    · exact rel_append put.totals (.cons (put.isTotal.with_dur _) .nil)
    · rw [sizes, ← put.heapsize]
    · rw [densities, ← put.density]
    · rw [pairwise_append]
      refine ⟨put.ascending, pairwise_singleton _ _, ?_⟩
      intro kept member new isNew
      rw [mem_singleton.1 isNew]
      rcases mem_append.1 member with ofFront | isIndex
      · have below := (pairwise_append.1 put.ascending).2.2 kept ofFront index mem_cons_self
        exact below.trans put.within
      · rw [mem_singleton.1 isIndex]
        exact put.within
    · rw [head?_append, put.first]
      rfl
    · rw [isChain_append]
      refine ⟨follow, isChain_singleton _, ?_⟩
      intro point isPoint next isNew
      rw [getLast?_concat] at isPoint
      cases isPoint
      cases isNew
      exact ⟨rfl, later⟩
    · rw [sizes, ← put.heapsize, add_zero]
    · rw [densities, ← put.density, add_zero]
  · refine ⟨front, index, before, { last with dur := some (ne.startTime - last.startTime) }, ?_,
      fun finished => ?_⟩
    · refine
        { arr := rfl
          totals := put.totals
          isTotal := put.isTotal.with_dur _
          ascending := put.ascending
          first := put.first
          within := put.within.trans (Nat.lt_succ_self count)
          follow := follow
          heapsize := ?_
          density := ?_ }
      · rw [sizes, ← put.heapsize]
        exact (add_assoc _ _ _).symm
      · rw [densities, ← put.density]
        exact (add_assoc _ _ _).symm
    · simp [finished] at isPut

variable
  (ordered : events.Pairwise fun first second =>
    first.startTime ≤ second.startTime)

include ordered

theorem Put.le (put : Put events count state front index before last)
    {ne : NativeEvent} (isNext : events[count]? = some ne) : last.startTime ≤ ne.startTime := by
  rcases Option.map_eq_some_iff.1 put.isTotal.time with ⟨event, isEvent, same⟩
  rcases List.getElem?_eq_some_iff.1 isEvent with ⟨inside, rfl⟩
  rcases List.getElem?_eq_some_iff.1 isNext with ⟨nextInside, rfl⟩
  rw [← same]
  exact pairwise_iff_getElem.1 ordered _ _ inside nextInside put.within

theorem Put.foldl (filterLevel : Int) {rest : List NativeEvent}
    (put : Put events count state front index before last) (isRest : events.drop count = rest)
    (isEnd : rest = [] → index = events.length - 1) :
    ∃ front' before' last', Put events events.length ((rest.zipIdx count).foldl (fun state item =>
            LogicWorker.putArr filterLevel state item.1 (item.2 == events.length - 1))
          state)
        front' (events.length - 1) before' last' := by
  induction rest generalizing count state front index before last with
  | nil =>
    have all := drop_eq_nil_iff.1 isRest
    have same : events.take count = events.take events.length := by
      rw [take_of_length_le all, take_length]
    rw [isEnd rfl] at put
    refine ⟨front, before, last, { put with within := ?_, heapsize := ?_, density := ?_ }⟩
    · have positive : events ≠ [] := by
        rintro rfl
        have first := put.isTotal.time
        simp at first
      exact Nat.sub_lt (length_pos_iff.2 positive) Nat.one_pos
    · rw [← same]
      exact put.heapsize
    · rw [← same]
      exact put.density
  | cons ne rest induction =>
    have isNext : events[count]? = some ne := by
      rw [← head?_drop, isRest]
      rfl
    rcases put.putArr filterLevel isNext (put.le ordered isNext) (count == events.length - 1) with
      ⟨front', index', before', last', more, isLast⟩
    refine induction more ?_ ?_
    · rw [← drop_drop, isRest]
      rfl
    · rintro rfl
      have length := congrArg List.length isRest
      rw [length_drop, length_singleton] at length
      refine (isLast ?_).trans ?_
      · rw [beq_iff_eq]
        omega
      · omega

theorem exists_put (filterLevel : Int) (nonempty : events ≠ []) :
    ∃ front before last, Put events events.length (putAll filterLevel events) front
        (events.length - 1) before last := by
  cases events with
  | nil => exact absurd rfl nonempty
  | cons ne rest =>
    have first : Put (ne :: rest) 1
        (LogicWorker.putArr filterLevel {} ne (0 == rest.length)) [] 0 []
        { startTime := ne.startTime
          density := ne.density
          heapsize := ne.size } :=
      { arr := rfl
        totals := .nil
        isTotal := ⟨rfl, by simp, by simp⟩
        ascending := pairwise_singleton _ _
        first := rfl
        within := Nat.one_pos
        follow := isChain_singleton _
        heapsize := by simp [LogicWorker.putArr]
        density := by simp [LogicWorker.putArr] }
    refine first.foldl ordered filterLevel rfl ?_
    rintro rfl
    rfl

omit ordered

namespace NativeMemoryWorker

variable (worker : NativeMemoryWorker)

theorem ordered_selected (nativeMemoryType : Nat) :
    (worker.selected nativeMemoryType).Pairwise fun first second =>
      first.startTime ≤ second.startTime := by
  unfold selected
  split_ifs
  · exact worker.ordered.filter _
  · exact worker.ordered.filter _
  · exact worker.ordered

/--
The curve is a choice of the selected events, the first and the last among
them, and each point holds the totals after all events up to its own.
-/
theorem resolvingActionNativeMemoryChartData_exact (nativeMemoryType : Nat) (totalNS : Int) :
    CurveExact (worker.selected nativeMemoryType) totalNS
      (worker.resolvingActionNativeMemoryChartData nativeMemoryType totalNS).1 := by
  have ordered := worker.ordered_selected nativeMemoryType
  unfold resolvingActionNativeMemoryChartData
  dsimp only
  generalize worker.selected nativeMemoryType = events at ordered ⊢
  by_cases nonempty : events = []
  · subst nonempty
    exact ⟨⟨[], .nil, .nil, fun none => absurd rfl none⟩, .nil, by simp [putAll]⟩
  · rcases exists_put ordered (getFilterLevel events.length) nonempty with
      ⟨front, before, last, put⟩
    have isLast : (putAll (getFilterLevel events.length) events).arr.getLast? =
      some last := by simp [put.arr]
    rw [isLast]
    dsimp only
    rw [put.arr, dropLast_concat]
    have follow := isChain_with_dur put.follow (some (totalNS - last.startTime))
    refine ⟨⟨front ++ [events.length - 1], ?_, put.ascending, fun _ =>
      ⟨put.first, getLast?_concat⟩⟩, ?_, ?_⟩
    · have totals := rel_append put.totals
        (.cons (put.isTotal.with_dur (some (totalNS - last.startTime))) .nil)
      rw [forall₂_map_right_iff]
      exact totals.imp fun _ _ total => ⟨total.time, total.heapsize, total.density⟩
    · rw [isChain_map]
      exact follow
    · simp

/-- An allocation, a map, and a release of what was allocated. -/
def threeEvents : NativeMemoryWorker where
  nativeMemoryData := [⟨0, 8, 0⟩, ⟨5, 4, 1⟩, ⟨9, 8, 2⟩]
  ordered := by decide

theorem resolvingActionNativeMemoryChartData_exact_threeEvents :
    CurveExact threeEvents.nativeMemoryData 10
      (threeEvents.resolvingActionNativeMemoryChartData 0 10).1 :=
  threeEvents.resolvingActionNativeMemoryChartData_exact 0 10

end NativeMemoryWorker

end SysAnalyzer.LogicWorker
