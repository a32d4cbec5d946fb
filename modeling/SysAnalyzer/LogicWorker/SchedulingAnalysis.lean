import SysAnalyzer.Foundation.Overlaps
import SysAnalyzer.Foundation.PropertyMap

/-!
# Thread times at a frequency

`ProcedureLogicWorkerSchedulingAnalysis` keeps the frequencies of every CPU as
intervals and lays the slices of threads over them.  `handlerFreqThreadData` has
the time of each thread at one frequency, and is exact as long as no slice goes on
behind an interval that it overlaps: the end of the interval does not limit what
is counted.

The maps of threads and CPUs are functions, and a CPU without an entry has no
intervals.  Texts that only show a number again are left out.
-/

namespace SysAnalyzer.LogicWorker

open Foundation List

/-- `CpuMeasure`, with a duration. -/
structure CpuMeasure where
  cpu : Nat
  value : Int
  block : String
  ts : Int
  dur : Int

def CpuMeasure.span (measure : CpuMeasure) : Span := ⟨measure.ts, measure.ts + measure.dur⟩

/-- `FreqThread`, a slice of a thread. -/
structure FreqThread where
  pid : Int
  tid : Int
  ts : Int
  dur : Int

def FreqThread.span (slice : FreqThread) : Span := ⟨slice.ts, slice.ts + slice.dur⟩

structure FreqThreadRow where
  tid : Int
  tName : String
  pid : Int
  pName : String
  dur : Int

/-- What `ProcedureLogicWorkerSchedulingAnalysis` has loaded and selected. -/
structure SchedulingAnalysis where
  startTs : Int := 0
  totalDur : Int := 0
  cpu : Nat := 0
  freq : Int := 0
  cpuFreqMap : Nat → List CpuMeasure := fun _ => []
  threadMap : Int → Option String := fun _ => none
  processMap : Int → Option String := fun _ => none

/-- A name, `null` where there is none. -/
def nameOrNull (name : Option String) : String := if name.getD "" = "" then "null" else name.getD ""

namespace SchedulingAnalysis

variable (analysis : SchedulingAnalysis)

/-- The intervals with the selected frequency. -/
def cpuFreqArr : List CpuMeasure :=
  (analysis.cpuFreqMap analysis.cpu).filter fun it => it.value = analysis.freq

/-- A slice and an interval have some time in common. -/
def isDuring (it : CpuMeasure) (f : FreqThread) : Bool :=
  min (f.ts + f.dur) (it.ts + it.dur) - max f.ts it.ts > 0

def countedDur (it : CpuMeasure) (tf : FreqThread) : Int :=
  let tfEndTs := tf.ts + tf.dur
  min tfEndTs tfEndTs - max it.ts tf.ts

def countSlice (it : CpuMeasure) (tf : FreqThread) : Option FreqThreadRow → FreqThreadRow
  | some row => { row with dur := row.dur + countedDur it tf }
  | none =>
    { tid := tf.tid
      tName := nameOrNull (analysis.threadMap tf.tid)
      pid := tf.pid
      pName := nameOrNull (analysis.processMap tf.pid)
      dur := countedDur it tf }

/-- The times of the threads in `handlerFreqThreadData`. -/
def freqThreadMap (arr : List FreqThread) : List (Int × FreqThreadRow) :=
  analysis.cpuFreqArr.foldl (fun map it =>
    (arr.filter (isDuring it)).foldl
      (fun map tf => upsert tf.tid (analysis.countSlice it tf) map) map)
    []

/-- `handlerFreqThreadData`: the twenty threads with the longest times. -/
def handlerFreqThreadData (arr : List FreqThread) : List FreqThreadRow :=
  (((analysis.freqThreadMap arr).map Prod.snd).mergeSort fun a b => b.dur ≤ a.dur).take 20

def timeOf (arr : List FreqThread) (tid : Int) : Int :=
  (((analysis.freqThreadMap arr).lookup tid).map FreqThreadRow.dur).getD 0

/-- Every thread has the time that the selected intervals share with its slices.
Where neither slices nor intervals overlap each other, the threads have no more
together than the intervals. -/
structure ThreadTimesExact (arr : List FreqThread) : Prop where
  exact : ∀ tid, analysis.timeOf arr tid = (analysis.cpuFreqArr.map fun it =>
    ((arr.filter fun slice => slice.tid = tid).map fun slice =>
      it.span.overlap slice.span).sum).sum
  bounded : (arr.map FreqThread.span).Pairwise Span.Apart →
    (analysis.cpuFreqArr.map CpuMeasure.span).Pairwise Span.Apart →
    (∀ it ∈ analysis.cpuFreqArr, 0 < it.dur) →
      ((analysis.freqThreadMap arr).map fun entry => entry.2.dur).sum ≤
        (analysis.cpuFreqArr.map CpuMeasure.dur).sum

def slicesDuring (arr : List FreqThread) : List (CpuMeasure × FreqThread) :=
  analysis.cpuFreqArr.flatMap fun it => (arr.filter (isDuring it)).map fun slice => (it, slice)

variable (arr : List FreqThread)

theorem freqThreadMap_eq : analysis.freqThreadMap arr = group (fun pair => pair.2.tid)
    (fun pair => analysis.countSlice pair.1 pair.2) (analysis.slicesDuring arr) := by
  unfold freqThreadMap group slicesDuring
  rw [foldl_flatMap]
  simp only [foldl_map]

theorem dur_countSlice (it : CpuMeasure) (slice : FreqThread) (row : Option FreqThreadRow) :
    (analysis.countSlice it slice row).dur =
      (row.map FreqThreadRow.dur).getD 0 + countedDur it slice := by
  cases row with
  | none => exact (zero_add _).symm
  | some row => rfl

theorem timeOf_eq (tid : Int) :
    analysis.timeOf arr tid = (((analysis.slicesDuring arr).filter fun pair => pair.2.tid = tid).map
      fun pair => countedDur pair.1 pair.2).sum := by
  unfold timeOf
  rw [freqThreadMap_eq, lookup_group]
  exact number_gather _ FreqThreadRow.dur fun pair _ => analysis.dur_countSlice pair.1 pair.2

theorem sum_freqThreadMap : ((analysis.freqThreadMap arr).map fun entry => entry.2.dur).sum =
    ((analysis.slicesDuring arr).map fun pair =>
      countedDur pair.1 pair.2).sum := by
  rw [freqThreadMap_eq]
  exact sum_group _ _ FreqThreadRow.dur fun pair _ => analysis.dur_countSlice pair.1 pair.2

variable {it : CpuMeasure} {slice : FreqThread}

theorem mem_slicesDuring {arr : List FreqThread} : (it, slice) ∈ analysis.slicesDuring arr ↔
    it ∈ analysis.cpuFreqArr ∧ slice ∈ arr ∧ isDuring it slice = true := by
  unfold slicesDuring
  simp

theorem overlap_of_not_isDuring
    (isApart : isDuring it slice = false) : it.span.overlap slice.span = 0 := by
  unfold isDuring at isApart
  unfold Span.overlap CpuMeasure.span FreqThread.span
  rw [decide_eq_false_iff_not] at isApart
  dsimp only
  omega

theorem sum_slicesDuring (keep : FreqThread → Bool) :
    (((analysis.slicesDuring arr).filter fun pair => keep pair.2).map
      fun pair => pair.1.span.overlap pair.2.span).sum = (analysis.cpuFreqArr.map fun it =>
      ((arr.filter keep).map fun slice =>
        it.span.overlap slice.span).sum).sum := by
  unfold slicesDuring
  induction analysis.cpuFreqArr with
  | nil => rfl
  | cons it others induction =>
    have here : ((((arr.filter (isDuring it)).map fun slice => (it, slice)).filter
      fun pair => keep pair.2).map fun pair =>
        pair.1.span.overlap pair.2.span).sum =
        ((arr.filter keep).map fun slice =>
          it.span.overlap slice.span).sum := by
      rw [filter_map, map_map, filter_filter, ← sum_map_filter (isDuring it)
        fun slice _ isApart => overlap_of_not_isDuring isApart,
        filter_filter]
      simp only [Function.comp_def, Bool.and_comm]
    rw [flatMap_cons, filter_append, map_append, sum_append, induction, here, map_cons, sum_cons]

theorem overlap_le_countedDur (during : isDuring it slice = true) :
    it.span.overlap slice.span ≤ countedDur it slice ∧
      (countedDur it slice = it.span.overlap slice.span ↔
        slice.ts + slice.dur ≤ it.ts + it.dur) := by
  unfold isDuring at during
  unfold Span.overlap CpuMeasure.span FreqThread.span countedDur
  rw [decide_eq_true_iff] at during
  dsimp only
  omega

/-- The times are exact just where no slice goes on behind a selected interval that
it has some time in common with. -/
theorem threadTimesExact_iff : analysis.ThreadTimesExact arr ↔
    ∀ it ∈ analysis.cpuFreqArr, ∀ slice ∈ arr, isDuring it slice = true →
      slice.ts + slice.dur ≤ it.ts + it.dur := by
  constructor
  · rintro ⟨exact, _⟩ it selected slice member during
    have same := exact slice.tid
    rw [timeOf_eq, ← sum_slicesDuring analysis arr
      fun other => decide (other.tid = slice.tid)] at same
    have each := (sum_map_eq_iff _ _ fun pair ofPairs =>
      (overlap_le_countedDur (analysis.mem_slicesDuring.1
        (mem_of_mem_filter ofPairs)).2.2).1).1 same
    have pairMember : (it, slice) ∈ (analysis.slicesDuring arr).filter
      fun pair => decide (pair.2.tid = slice.tid) :=
      mem_filter.2 ⟨analysis.mem_slicesDuring.2 ⟨selected, member, during⟩, by simp⟩
    exact (overlap_le_countedDur during).2.1 (each _ pairMember)
  · intro within
    have counted : ∀ pair ∈ analysis.slicesDuring arr,
      countedDur pair.1 pair.2 = pair.1.span.overlap pair.2.span := by
      rintro ⟨it, slice⟩ member
      rcases analysis.mem_slicesDuring.1 member with ⟨selected, ofArr, during⟩
      exact (overlap_le_countedDur during).2.2 (within it selected slice ofArr during)
    constructor
    · intro tid
      rw [timeOf_eq, ← sum_slicesDuring analysis arr fun slice => decide (slice.tid = tid)]
      congr 1
      exact map_congr_left fun pair member => counted pair (mem_of_mem_filter member)
    · intro slicesApart _ positive
      have all := analysis.sum_slicesDuring arr fun _ => true
      rw [filter_eq_self.2 (by simp), filter_eq_self.2 (by simp)]
        at all
      rw [sum_freqThreadMap, map_congr_left counted, all]
      refine sum_le_sum ?_
      intro it selected
      have shared := Span.sum_overlap_le slicesApart it.span
        (le_add_of_nonneg_right (positive it selected).le)
      rw [map_map] at shared
      refine shared.trans_eq ?_
      unfold CpuMeasure.span
      dsimp only
      omega

def shortInterval : SchedulingAnalysis where
  freq := 5
  cpuFreqMap _ := [⟨0, 5, "", 0, 10⟩]

theorem shortInterval_not_exact : ¬ shortInterval.ThreadTimesExact [⟨1, 1, 5, 15⟩] := by
  intro right
  have time := right.exact 1
  revert time
  decide

/-- At most twenty threads are listed, longest times first, and no other thread has a
longer time than a listed one. -/
theorem handlerFreqThreadData_longest (analysis : SchedulingAnalysis) (arr : List FreqThread) :
    (analysis.handlerFreqThreadData arr).length ≤ 20 ∧
      (analysis.handlerFreqThreadData arr).Pairwise (fun row next => next.dur ≤ row.dur) ∧
        ∃ others, (analysis.handlerFreqThreadData arr ++ others).Perm
            ((analysis.freqThreadMap arr).map Prod.snd) ∧
          ∀ row ∈ analysis.handlerFreqThreadData arr, ∀ other ∈ others, other.dur ≤ row.dur := by
  have sorted := @pairwise_mergeSort FreqThreadRow (fun a b => decide (b.dur ≤ a.dur))
    (fun a b c first second => by simp only [decide_eq_true_eq] at *; omega)
    (fun a b => by simp only [Bool.or_eq_true, decide_eq_true_eq]; omega)
    ((analysis.freqThreadMap arr).map Prod.snd)
  simp only [decide_eq_true_eq] at sorted
  have split := take_append_drop 20
    (((analysis.freqThreadMap arr).map Prod.snd).mergeSort fun a b => b.dur ≤ a.dur)
  rw [← split, pairwise_append] at sorted
  refine ⟨length_take_le _ _, sorted.1, _, ?_, sorted.2.2⟩
  rw [handlerFreqThreadData, split]
  exact mergeSort_perm ..

end SchedulingAnalysis

end SysAnalyzer.LogicWorker
