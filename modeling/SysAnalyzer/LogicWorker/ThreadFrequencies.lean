import SysAnalyzer.LogicWorker.SchedulingAnalysis

/-!
# The frequencies of threads

`groupFreqByCpu` makes intervals of the frequency measures of a CPU, and puts one
of an unknown frequency before the first of them, so that they reach from the
beginning of the trace to its end.  `handlerThreadFreqData` lays the slices of a
thread over them.

No time is lost, but on a CPU whose measures have no duration at all: there the
unknown frequency is left out with them.
-/

namespace SysAnalyzer.LogicWorker

open Foundation List

/-- `CpuMeasure` as it is queried; a duration that is missing is open-ended. -/
structure CpuMeasureRow where
  cpu : Nat
  value : Int
  block : String
  ts : Int
  dur : Option Int

structure ThreadSlice where
  cpu : Nat
  ts : Int
  dur : Int

def ThreadSlice.span (slice : ThreadSlice) : Span := ⟨slice.ts, slice.ts + slice.dur⟩

/-- An item of `freqArr`: how long a slice ran at a frequency. -/
structure FreqShare where
  cpu : Nat
  freq : Int
  dur : Int

/-- The time at a frequency of a CPU. -/
structure ThreadFreqRow where
  freq : Int
  cpu : Nat
  time : Int
  totalDur : Int

/-- A measure of a CPU goes behind the others, if it has a duration.  Before the
first one the frequency is unknown. -/
def addToCpu (cpuArr : List CpuMeasure) (ca : CpuMeasure) : List CpuMeasure :=
  if ca.dur > 0 then
    if cpuArr.isEmpty then
      if ca.ts > 0 then [{ cpu := ca.cpu, value := -1, block := "", ts := 0, dur := ca.ts }, ca]
      else [ca]
    else cpuArr ++ [ca]
  else cpuArr

/-- The condition of `handlerThreadFreqData` on an interval. -/
def isTouching (it : ThreadSlice) (f : CpuMeasure) : Bool :=
  let itEndTs := it.ts + it.dur
  (it.ts ≥ f.ts && it.ts ≤ f.ts + f.dur) || (it.ts ≤ f.ts && itEndTs ≥ f.ts + f.dur) ||
    (itEndTs > f.ts && itEndTs ≤ f.ts + f.dur)

/-- How long a slice ran during an interval. -/
def freqShare (it : ThreadSlice) (tf : CpuMeasure) : FreqShare where
  cpu := it.cpu
  freq := tf.value
  dur := min (it.ts + it.dur) (tf.ts + tf.dur) - max it.ts tf.ts

namespace SchedulingAnalysis

variable (analysis : SchedulingAnalysis)

/-- A measure from the beginning of the trace, the last one to its end. -/
def closeMeasure (ca : CpuMeasureRow) : CpuMeasure where
  cpu := ca.cpu
  value := ca.value
  block := ca.block
  ts := ca.ts - analysis.startTs
  dur := ca.dur.getD (analysis.totalDur - (ca.ts - analysis.startTs))

def groupFreqByCpu (arr : List CpuMeasureRow) : SchedulingAnalysis :=
  { analysis with
    cpuFreqMap :=
      (arr.map analysis.closeMeasure).foldl
        (fun map ca => Function.update map ca.cpu (addToCpu (map ca.cpu) ca))
        fun _ => [] }

/-- `freqArr` of a slice. -/
def freqArr (it : ThreadSlice) : List FreqShare :=
  ((analysis.cpuFreqMap it.cpu).filter (isTouching it)).map (freqShare it)

def freqKey (fa : FreqShare) : String := toString fa.cpu ++ "-" ++ toString fa.freq

def addShare (sumDur : Int) (fa : FreqShare) : Option ThreadFreqRow → ThreadFreqRow
  | some row => { row with time := row.time + fa.dur }
  | none => { freq := fa.freq, cpu := fa.cpu, time := fa.dur, totalDur := sumDur }

/-- `handlerThreadFreqData`: the frequencies with their times, the longest first. -/
def handlerThreadFreqData (arr : List ThreadSlice) : List ThreadFreqRow :=
  (objectValues (group freqKey (addShare (arr.map ThreadSlice.dur).sum)
    (arr.flatMap analysis.freqArr))).mergeSort
    fun a b => b.time ≤ a.time

/-- The times are not negative and are those of the slices together, and what only
touches a slice adds nothing. -/
structure FrequenciesComplete (arr : List ThreadSlice) : Prop where
  nonneg : ∀ row ∈ analysis.handlerThreadFreqData arr, 0 ≤ row.time
  total : ((analysis.handlerThreadFreqData arr).map ThreadFreqRow.time).sum =
    (arr.map ThreadSlice.dur).sum
  touching : ∀ it ∈ arr, ∀ f ∈ analysis.cpuFreqMap it.cpu, isTouching it f = true →
    (freqShare it f).dur = it.span.overlap f.span

end SchedulingAnalysis

/-- Measures in time order without a gap, the last one open-ended. -/
def FollowOn : List CpuMeasureRow → Prop
  | [] => True
  | [last] => last.dur = none
  | row :: next :: rest =>
    (∃ dur, row.dur = some dur ∧ 0 ≤ dur ∧ row.ts + dur = next.ts) ∧ FollowOn (next :: rest)

/-- Measures that follow each other on every CPU. -/
structure CpuMeasureRows where
  rows : List CpuMeasureRow
  followOn : ∀ cpu, FollowOn (rows.filter fun row => row.cpu = cpu)

structure SlicesInside (totalDur : Int) where
  slices : List ThreadSlice
  inside : ∀ it ∈ slices, 0 ≤ it.ts ∧ 0 ≤ it.dur ∧ it.ts + it.dur ≤ totalDur

namespace SchedulingAnalysis

variable (analysis : SchedulingAnalysis)

theorem cpuFreqMap_groupFreqByCpu (arr : List CpuMeasureRow) (cpu : Nat) :
    (analysis.groupFreqByCpu arr).cpuFreqMap cpu = ((arr.filter fun row => row.cpu = cpu).map
      analysis.closeMeasure).foldl addToCpu [] := by
  induction arr using reverseRecOn with
  | nil => rfl
  | append_singleton arr row induction =>
    unfold groupFreqByCpu at induction ⊢
    dsimp only at induction ⊢
    rw [map_append, foldl_append, filter_append, map_append, foldl_append, ← induction]
    by_cases ofCpu : row.cpu = cpu
    · subst ofCpu
      simp [closeMeasure]
    · simp [closeMeasure, ofCpu, Function.update_of_ne (Ne.symm ofCpu)]

theorem tiles_addToCpu {start : Int} {cpuArr : List CpuMeasure}
    {ca : CpuMeasure} (nonempty : cpuArr.isEmpty = false)
    (tiles : Span.Tiles start ca.ts (cpuArr.map CpuMeasure.span)) :
    (addToCpu cpuArr ca).isEmpty = false ∧ Span.Tiles start (ca.ts + max 0 ca.dur)
      ((addToCpu cpuArr ca).map CpuMeasure.span) := by
  unfold addToCpu
  by_cases positive : ca.dur > 0
  · rw [if_pos positive, nonempty, if_neg Bool.false_ne_true, max_eq_right positive.le, map_append]
    exact ⟨by simp, tiles.concat (by omega)⟩
  · rw [if_neg positive, max_eq_left (not_lt.1 positive), add_zero]
    exact ⟨nonempty, tiles⟩

theorem tiles_addToCpu_nil {ca : CpuMeasure} (positive : 0 < ca.dur) :
    (addToCpu [] ca).isEmpty = false ∧ Span.Tiles (min 0 ca.ts) (ca.ts + ca.dur)
      ((addToCpu [] ca).map CpuMeasure.span) := by
  have own : Span.Tiles ca.ts (ca.ts + ca.dur) [ca.span] := .cons (by omega) (.nil _)
  unfold addToCpu
  rw [if_pos positive, if_pos isEmpty_nil]
  by_cases behind : ca.ts > 0
  · rw [if_pos behind, min_eq_left behind.le]
    refine ⟨rfl, ?_⟩
    simpa [CpuMeasure.span] using Span.Tiles.cons behind.le own
  · rw [if_neg behind, min_eq_right (not_lt.1 behind)]
    exact ⟨rfl, own⟩

theorem closeMeasure_next {row next : CpuMeasureRow} {rest : List CpuMeasureRow}
    (followOn : FollowOn (row :: next :: rest)) :
    (analysis.closeMeasure row).ts + max 0 (analysis.closeMeasure row).dur =
      (analysis.closeMeasure next).ts := by
  rcases followOn with ⟨⟨dur, isDur, positive, follows⟩, _⟩
  unfold closeMeasure
  rw [isDur]
  dsimp only [Option.getD_some]
  omega

theorem tiles_foldl_addToCpu {start : Int} {row : CpuMeasureRow}
    {rest : List CpuMeasureRow} {cpuArr : List CpuMeasure}
    (followOn : FollowOn (row :: rest)) (nonempty : cpuArr.isEmpty = false)
    (tiles : Span.Tiles start (analysis.closeMeasure row).ts (cpuArr.map CpuMeasure.span)) :
    ∃ stop, analysis.totalDur ≤ stop ∧ Span.Tiles start stop
      ((((row :: rest).map analysis.closeMeasure).foldl addToCpu
        cpuArr).map CpuMeasure.span) := by
  rcases tiles_addToCpu nonempty tiles with ⟨more, longer⟩
  induction rest generalizing row cpuArr with
  | nil =>
    refine ⟨_, ?_, longer⟩
    have last : row.dur = none := followOn
    unfold closeMeasure
    rw [last]
    dsimp only [Option.getD_none]
    omega
  | cons next rest induction =>
    rw [analysis.closeMeasure_next followOn] at longer
    rcases tiles_addToCpu more longer with ⟨moreNext, longerNext⟩
    exact induction followOn.2 more longer moreNext longerNext

theorem intervals_of_followOn {rows : List CpuMeasureRow} (followOn : FollowOn rows) :
    ((rows.map analysis.closeMeasure).foldl addToCpu [] = [] ∧
      ∀ row ∈ rows, (analysis.closeMeasure row).dur ≤ 0) ∨
      (∃ row ∈ rows, 0 < (analysis.closeMeasure row).dur) ∧
        ∃ start stop, start ≤ 0 ∧ analysis.totalDur ≤ stop ∧ Span.Tiles start stop
          (((rows.map analysis.closeMeasure).foldl addToCpu []).map CpuMeasure.span) := by
  induction rows with
  | nil => exact .inl ⟨rfl, by simp⟩
  | cons row rest induction =>
    by_cases positive : 0 < (analysis.closeMeasure row).dur
    · refine .inr ⟨⟨row, mem_cons_self, positive⟩, ?_⟩
      rcases tiles_addToCpu_nil positive with ⟨nonempty, tiles⟩
      cases rest with
      | nil =>
        refine ⟨_, _, min_le_left _ _, ?_, tiles⟩
        have last : row.dur = none := followOn
        unfold closeMeasure
        rw [last]
        dsimp only [Option.getD_none]
        omega
      | cons next rest =>
        have next := analysis.closeMeasure_next followOn
        rw [max_eq_right positive.le] at next
        rw [next] at tiles
        rcases analysis.tiles_foldl_addToCpu followOn.2 nonempty tiles with
          ⟨stop, far, all⟩
        exact ⟨_, stop, min_le_left _ _, far, all⟩
    · have none : addToCpu [] (analysis.closeMeasure row) = [] :=
        if_neg positive
      have later : FollowOn rest := by
        cases rest with
        | nil => trivial
        | cons next rest => exact followOn.2
      rw [map_cons, foldl_cons, none]
      rcases induction later with ⟨empty, zero⟩ | ⟨⟨other, member, some⟩, all⟩
      · refine .inl ⟨empty, ?_⟩
        rw [forall_mem_cons]
        exact ⟨not_lt.1 positive, zero⟩
      · exact .inr ⟨⟨other, mem_cons_of_mem _ member, some⟩, all⟩

theorem dur_addShare (sumDur : Int) (fa : FreqShare) (row : Option ThreadFreqRow) :
    (addShare sumDur fa row).time = (row.map ThreadFreqRow.time).getD 0 + fa.dur := by
  cases row with
  | none => exact (zero_add _).symm
  | some row => rfl

theorem dur_freqShare {it : ThreadSlice} {f : CpuMeasure} (ordered : 0 ≤ it.dur ∧ 0 ≤ f.dur) :
    if isTouching it f then (freqShare it f).dur = it.span.overlap f.span else
      it.span.overlap f.span = 0 := by
  unfold isTouching freqShare Span.overlap ThreadSlice.span CpuMeasure.span
  dsimp only
  split_ifs with touches
  · simp only [Bool.or_eq_true, Bool.and_eq_true, decide_eq_true_iff] at touches
    omega
  · simp only [Bool.or_eq_true, Bool.and_eq_true, decide_eq_true_iff] at touches
    omega

variable (measures : CpuMeasureRows)

theorem nonneg_of_mem_cpuFreqMap {cpu : Nat} {f : CpuMeasure}
    (member : f ∈ (analysis.groupFreqByCpu measures.rows).cpuFreqMap cpu) : 0 ≤ f.dur := by
  rw [cpuFreqMap_groupFreqByCpu] at member
  rcases analysis.intervals_of_followOn (measures.followOn cpu) with
    ⟨empty, _⟩ | ⟨_, start, stop, _, _, tiles⟩
  · rw [empty] at member
    cases member
  · have ordered := tiles.ordered f.span (mem_map_of_mem member)
    unfold CpuMeasure.span at ordered
    dsimp only at ordered
    omega

def HasDuration (cpu : Nat) : Prop :=
  ∃ row ∈ measures.rows, row.cpu = cpu ∧ 0 < (analysis.closeMeasure row).dur

theorem sum_freqArr {it : ThreadSlice} (ordered : 0 ≤ it.dur) :
    (((analysis.groupFreqByCpu measures.rows).freqArr it).map FreqShare.dur).sum =
      (((analysis.groupFreqByCpu measures.rows).cpuFreqMap it.cpu).map
        fun f => it.span.overlap f.span).sum := by
  have share : ∀ f ∈ (analysis.groupFreqByCpu measures.rows).cpuFreqMap it.cpu,
    if isTouching it f then (freqShare it f).dur = it.span.overlap f.span
    else
      it.span.overlap f.span = 0 :=
    fun f member => dur_freqShare ⟨ordered, analysis.nonneg_of_mem_cpuFreqMap measures member⟩
  unfold freqArr
  refine Eq.trans ?_ (sum_map_filter (isTouching it) ?_)
  · rw [map_map]
    congr 1
    refine map_congr_left ?_
    intro f member
    rw [mem_filter] at member
    have same := share f member.1
    rwa [if_pos member.2] at same
  · intro f member apart
    have none := share f member
    rwa [if_neg (by simp [apart])] at none

variable (slices : SlicesInside analysis.totalDur)

theorem sum_freqArr_of_inside {it : ThreadSlice} (member : it ∈ slices.slices) :
    (analysis.HasDuration measures it.cpu →
      (((analysis.groupFreqByCpu measures.rows).freqArr it).map FreqShare.dur).sum = it.dur) ∧
      (¬ analysis.HasDuration measures it.cpu →
        (((analysis.groupFreqByCpu measures.rows).freqArr it).map FreqShare.dur).sum = 0) := by
  rcases slices.inside it member with ⟨fromStart, ordered, toStop⟩
  rw [analysis.sum_freqArr measures ordered, cpuFreqMap_groupFreqByCpu]
  have has : analysis.HasDuration measures it.cpu ↔
    ∃ row ∈ measures.rows.filter (fun row => row.cpu = it.cpu),
      0 < (analysis.closeMeasure row).dur := by
    unfold HasDuration
    simp [and_assoc]
  rw [has]
  rcases analysis.intervals_of_followOn (measures.followOn it.cpu) with
    ⟨empty, zero⟩ | ⟨some, start, stop, before, behind, tiles⟩
  · rw [empty]
    refine ⟨?_, fun _ => rfl⟩
    rintro ⟨row, ofCpu, positive⟩
    exact absurd positive (not_lt.2 (zero row ofCpu))
  · refine ⟨fun _ => ?_, fun none => absurd some none⟩
    have all := tiles.sum_overlap_of_inside it.span
      (le_add_of_nonneg_right ordered) (before.trans fromStart)
      (toStop.trans behind)
    rw [map_map] at all
    exact all.trans (add_sub_cancel_left _ _)

theorem sum_handlerThreadFreqData (arr : List ThreadSlice) :
    ((analysis.handlerThreadFreqData arr).map ThreadFreqRow.time).sum = (arr.map fun it =>
      ((analysis.freqArr it).map FreqShare.dur).sum).sum := by
  unfold handlerThreadFreqData
  rw [((mergeSort_perm _ _).map _).sum_eq, ((perm_objectValues _).map _).sum_eq, map_map]
  refine (sum_group freqKey _ ThreadFreqRow.time fun fa _ => dur_addShare _ fa).trans ?_
  rw [map_flatMap, flatMap, sum_flatten, map_map]
  rfl

/-- The times are complete just where every slice with a duration is on a CPU that
has a measure with a duration. -/
theorem frequenciesComplete_iff :
    (analysis.groupFreqByCpu measures.rows).FrequenciesComplete slices.slices ↔
      ∀ it ∈ slices.slices, it.dur ≠ 0 → ∃ row ∈ measures.rows, row.cpu = it.cpu ∧
        0 < (analysis.closeMeasure row).dur := by
  have touching : ∀ it ∈ slices.slices,
    ∀ f ∈ (analysis.groupFreqByCpu measures.rows).cpuFreqMap it.cpu, isTouching it f = true →
      (freqShare it f).dur = it.span.overlap f.span := by
    intro it member f ofCpu touches
    have share := dur_freqShare ⟨(slices.inside it member).2.1,
      analysis.nonneg_of_mem_cpuFreqMap measures ofCpu⟩
    rwa [if_pos touches] at share
  have nonneg : ∀ fa ∈ slices.slices.flatMap
    (analysis.groupFreqByCpu measures.rows).freqArr, 0 ≤ fa.dur := by
    intro fa member
    rcases mem_flatMap.1 member with ⟨it, ofSlices, ofArr⟩
    rcases mem_map.1 ofArr with ⟨f, selected, rfl⟩
    rw [mem_filter] at selected
    rw [touching it ofSlices f selected.1 selected.2]
    exact Span.overlap_nonneg _ _
  have bounded : ∀ it ∈ slices.slices, (((analysis.groupFreqByCpu measures.rows).freqArr it).map
    FreqShare.dur).sum ≤ it.dur := by
    intro it member
    rcases analysis.sum_freqArr_of_inside measures slices member with
      ⟨whole, nothing⟩
    by_cases has : analysis.HasDuration measures it.cpu
    · exact (whole has).le
    · exact (nothing has).trans_le (slices.inside it member).2.1
  have total := sum_map_eq_iff _ ThreadSlice.dur bounded
  have iff : (∀ it ∈ slices.slices, it.dur =
    (((analysis.groupFreqByCpu measures.rows).freqArr it).map FreqShare.dur).sum) ↔
      ∀ it ∈ slices.slices, it.dur ≠ 0 → analysis.HasDuration measures it.cpu := by
    refine forall₂_congr fun it member => ?_
    rcases analysis.sum_freqArr_of_inside measures slices member with
      ⟨whole, nothing⟩
    by_cases has : analysis.HasDuration measures it.cpu
    · simp [has, whole has]
    · simp [has, nothing has]
  refine Iff.trans ?_ (total.trans iff)
  constructor
  · intro complete
    rw [← sum_handlerThreadFreqData]
    exact complete.total.symm
  · intro same
    refine ⟨?_, ?_, touching⟩
    · intro row member
      unfold handlerThreadFreqData at member
      rw [mem_mergeSort, mem_objectValues_group_iff] at member
      rcases member with ⟨key, gathered⟩
      have time :=
        (congrArg (fun value => (value.map ThreadFreqRow.time).getD 0) gathered).symm.trans
          (number_gather _ ThreadFreqRow.time fun fa _ => dur_addShare _ fa)
      refine (sum_nonneg ?_).trans_eq time.symm
      intro dur ofKey
      rcases mem_map.1 ofKey with ⟨fa, isShare, rfl⟩
      exact nonneg fa (mem_of_mem_filter isShare)
    · rw [sum_handlerThreadFreqData]
      exact same.symm

def measureAtEnd : CpuMeasureRows where
  rows := [⟨0, 1000, "", 100, none⟩]
  followOn cpu := by
    by_cases isFirst : 0 = cpu
    · simp [isFirst, FollowOn]
    · simp [isFirst, FollowOn]

def sliceBeforeEnd : SlicesInside 100 where
  slices := [⟨0, 0, 100⟩]
  inside := by decide

theorem measureAtEnd_not_complete : ¬ (groupFreqByCpu { totalDur := 100 }
    measureAtEnd.rows).FrequenciesComplete sliceBeforeEnd.slices := by
  intro complete
  have total := complete.total
  rw [sum_handlerThreadFreqData] at total
  revert total
  decide

end SchedulingAnalysis

end SysAnalyzer.LogicWorker
