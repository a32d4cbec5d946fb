import SysAnalyzer.LogicWorker.JsChart

/-!
# The functions of the frames

A sample goes on with a frame that has the name and the url of its function.  The
tables tell anonymous functions apart by their lines and columns as well, so that a
frame has the samples of one function just where the samples that go on with an
anonymous frame are at its place.
-/

namespace SysAnalyzer.LogicWorker

open Foundation List JsCpuProfilerSample Option

/-- An anonymous function has the line and the column of a frame. -/
def SamePlace (symbol : JsProfilerSymbol) (frame : ChartFrame) : Prop :=
  symbol.name = lambdaFunctionName → symbol.line = frame.line ∧ symbol.column = frame.column

/-- The frames that a stack goes on with, and its functions. -/
def JsCpuProfilerSample.continued (sample : JsCpuProfilerSample) :
    (idx : Nat) → (stack : List JsProfilerSymbol) → List ChartTree →
      List (JsProfilerSymbol × ChartFrame)
  | _, [], _ => []
  | idx, symbol :: stack, chart =>
    match chart.getLast? with
    | some (.node last below) =>
      if sample.fits idx symbol last then (symbol, last) :: sample.continued (idx + 1) stack below
      else []
    | none => []

namespace CallNodeTable

variable (table : CallNodeTable) (dataDict : Nat → Option String)

def HasFunction (sample : JsCpuProfilerSample) (frame : ChartFrame) : Prop :=
  ∃ (depth : Nat) (symbol : JsProfilerSymbol), frame.depth = some (depth : Int) ∧
    (table.stackOf dataDict sample)[depth]? = some symbol ∧
    symbol.name = frame.name ∧ symbol.url = frame.url ∧ SamePlace symbol frame

def FrameFits (samples : List JsCpuProfilerSample) (frame : ChartFrame) : Prop :=
  ∀ sample ∈ samples, sample.id ∈ frame.samplesIds → table.HasFunction dataDict sample frame

/-- No frame of a chart mixes functions. -/
def Unmixed (samples : List JsCpuProfilerSample) (chart : List ChartTree) : Prop :=
  ∀ frame ∈ framesOf chart, table.FrameFits dataDict samples frame

/-- The anonymous frames that a sample goes on with are at the places of its
functions. -/
def KeepsPlaces (sample : JsCpuProfilerSample) (chart : List ChartTree) : Prop :=
  ∀ pair ∈ sample.continued 0 (table.stackOf dataDict sample) chart, SamePlace pair.1 pair.2

section

variable {table dataDict} {samples : List JsCpuProfilerSample}
  (distinct : (samples.map JsCpuProfilerSample.id).Nodup)
  {sample : JsCpuProfilerSample} (member : sample ∈ samples)
include distinct member

variable {symbol : JsProfilerSymbol}

theorem unmixed_newFrames {stack : List JsProfilerSymbol} {idx : Nat}
    (rest : (table.stackOf dataDict sample).drop idx = symbol :: stack) :
    table.Unmixed dataDict samples [sample.newFrames symbol stack] := by
  have fits {symbol : JsProfilerSymbol} {stack : List JsProfilerSymbol} {idx : Nat} (selfTime : Nat)
    (rest : (table.stackOf dataDict sample).drop idx = symbol :: stack) :
    table.FrameFits dataDict samples
      { sample.symbolToChartFrame symbol with selfTime := selfTime } := by
    intro other isSample isId
    have same : other = sample :=
      inj_on_of_nodup_map distinct isSample member (mem_singleton.1 isId)
    subst same
    have read : (table.stackOf dataDict other)[idx]? = some symbol := by
      rw [← head?_drop, rest, head?_cons]
    rcases table.depth_of_stackOf dataDict read with ⟨depth, named⟩
    refine ⟨idx, symbol, depth, read, ?_, rfl, fun _ => ⟨rfl, rfl⟩⟩
    exact (if_neg named).symm
  induction stack generalizing symbol idx with
  | nil =>
    rw [newFrames, Unmixed, framesOf_singleton, forall_mem_cons]
    exact ⟨fits _ rest, by simp [framesOf, reachedAll]⟩
  | cons next stack induction =>
    rw [newFrames, Unmixed, framesOf_singleton, forall_mem_cons]
    refine ⟨fits 0 rest, @induction next (idx + 1) ?_⟩
    rw [← drop_drop, rest, drop_one, tail_cons]

theorem frameFits_goOn {stack rest : List JsProfilerSymbol} {idx : Nat} {frame : ChartFrame}
    (split : (table.stackOf dataDict sample).drop idx = symbol :: rest)
    (fits : sample.fits idx symbol frame = true) :
    table.FrameFits dataDict samples (sample.goOn stack frame) ↔
      table.FrameFits dataDict samples frame ∧ SamePlace symbol frame := by
  have read : (table.stackOf dataDict sample)[idx]? = some symbol := by
    rw [← head?_drop, split, head?_cons]
  simp only [JsCpuProfilerSample.fits, JsProfilerSymbol.isSymbolEqual,
    Bool.and_eq_true, decide_eq_true_eq] at fits
  rcases fits with ⟨⟨⟨name, url⟩, depth⟩, -⟩
  refine ⟨fun fits => ⟨?_, ?_⟩, fun both other isSample isId => ?_⟩
  · exact fun other isSample isId => fits other isSample (mem_append_left _ isId)
  · rcases fits sample member (mem_append_right _ mem_cons_self) with
      ⟨other, found, sameDepth, isFound, -, -, place⟩
    have sameIdx : idx = other := Int.ofNat_inj.1 (some_inj.1 (depth.symm.trans sameDepth))
    rw [← sameIdx, read, some_inj] at isFound
    exact isFound ▸ place
  · rcases mem_append.1 isId with earlier | isLast
    · exact both.1 other isSample earlier
    · have same : other = sample :=
        inj_on_of_nodup_map distinct isSample member (mem_singleton.1 isLast)
      subst same
      exact ⟨idx, symbol, depth, read, name, url, both.2⟩

theorem unmixed_addFrames_iff {stack : List JsProfilerSymbol} {idx : Nat}
    (rest : (table.stackOf dataDict sample).drop idx = stack) (chart : List ChartTree) :
    table.Unmixed dataDict samples (sample.addFrames idx stack chart) ↔
      table.Unmixed dataDict samples chart ∧
        ∀ pair ∈ sample.continued idx stack chart, SamePlace pair.1 pair.2 := by
  induction stack generalizing idx chart with
  | nil => simp [addFrames, continued]
  | cons symbol stack induction =>
    have new := unmixed_newFrames distinct member rest
    unfold Unmixed at *
    rw [addFrames, continued]
    rcases eq_nil_or_concat chart with rfl | ⟨others, ⟨last, below⟩, rfl⟩
    · simpa [framesOf, reachedAll] using new
    · rw [concat_eq_append, getLast?_concat]
      dsimp only
      split_ifs with fits
      · have further : (table.stackOf dataDict sample).drop (idx + 1) = stack := by
          rw [← drop_drop, rest, drop_one, tail_cons]
        rw [dropLast_concat, framesOf_append, framesOf_append,
          forall_mem_append, forall_mem_append, framesOf_singleton,
          framesOf_singleton, forall_mem_cons, forall_mem_cons,
          forall_mem_cons, induction further below,
          frameFits_goOn distinct member rest fits]
        tauto
      · rw [framesOf_append (others ++ _), forall_mem_append]
        exact ⟨fun all => ⟨all.1, by simp⟩, fun before => ⟨before.1, new⟩⟩

end

structure NumberedSamples where
  samples : List JsCpuProfilerSample
  distinct : (samples.map JsCpuProfilerSample.id).Nodup

/-- The chart keeps functions apart just where every sample finds the anonymous
frames that it goes on with at the places of its functions. -/
theorem combineChartData_unmixed_iff (samples : NumberedSamples) :
    ∃ chart, combineChartData (table.jsSymbolMap dataDict) table.jsCallChain.length
      samples.samples = some chart ∧ (table.Unmixed dataDict samples.samples chart ↔
      ∀ before sample after, samples.samples = before ++ sample :: after →
        ∀ earlier, combineChartData (table.jsSymbolMap dataDict)
          table.jsCallChain.length before = some earlier →
          table.KeepsPlaces dataDict sample earlier) := by
  refine ⟨_, table.combineChartData_eq dataDict samples.samples, ?_⟩
  simp only [table.combineChartData_eq, some_inj, forall_eq']
  have prefixes (past future : List JsCpuProfilerSample)
    (split : samples.samples = past ++ future) :
    table.Unmixed dataDict samples.samples (table.chartOf dataDict past) ↔
      ∀ before sample after, past = before ++ sample :: after →
        table.KeepsPlaces dataDict sample (table.chartOf dataDict before) := by
    induction past using reverseRecOn generalizing future with
    | nil => simp [chartOf, Unmixed, framesOf, reachedAll]
    | append_singleton past sample induction =>
      rw [append_assoc] at split
      have member : sample ∈ samples.samples := by simp [split]
      rw [chartOf_concat, unmixed_addFrames_iff samples.distinct member drop_zero,
        induction _ split]
      refine ⟨fun both before other after cut => ?_,
        fun all => ⟨fun before other after cut => ?_, ?_⟩⟩
      · rcases eq_nil_or_concat after with rfl | ⟨between, last, rfl⟩
        · rcases append_inj' cut rfl with ⟨rfl, isLast⟩
          cases isLast
          exact both.2
        · rw [concat_eq_append, ← cons_append, ← append_assoc] at cut
          exact both.1 _ _ _ (append_inj' cut rfl).1
      · exact all before other (after ++ [sample]) (by simp [cut])
      · exact all past sample [] rfl
  exact prefixes _ [] (append_nil _).symm

/-- Two samples of one function keep its frame. -/
theorem combineChartData_unmixed_sameLambda :
    ∃ chart, combineChartData (twoLambdas.jsSymbolMap fun _ => none) 3
      [⟨0, 2, 0, 1, 1⟩, ⟨1, 2, 1, 2, 1⟩] = some chart ∧
      twoLambdas.Unmixed (fun _ => none) [⟨0, 2, 0, 1, 1⟩, ⟨1, 2, 1, 2, 1⟩] chart := by
  rcases combineChartData_unmixed_iff twoLambdas (fun _ => none)
    ⟨[⟨0, 2, 0, 1, 1⟩, ⟨1, 2, 1, 2, 1⟩], by decide⟩ with ⟨chart, built, unmixed⟩
  refine ⟨chart, built, unmixed.2 ?_⟩
  intro before sample after split earlier made
  rw [twoLambdas.combineChartData_eq, some_inj] at made
  subst made
  rcases before with - | ⟨first, - | ⟨second, others⟩⟩
  · cases split
    unfold KeepsPlaces SamePlace
    decide
  · cases split
    unfold KeepsPlaces SamePlace
    decide
  · simp at split

/-- The second sample goes to the frame of the first one. -/
theorem not_unmixed_adjacentSamples :
    ∃ chart, combineChartData (twoLambdas.jsSymbolMap fun _ => none) 3
      adjacentSamples = some chart ∧
      ¬twoLambdas.Unmixed (fun _ => none) adjacentSamples chart := by
  refine ⟨_, twoLambdas.combineChartData_eq _ _, fun unmixed => ?_⟩
  rcases unmixed _ mem_cons_self ⟨1, 3, 1, 2, 1⟩ (by simp [adjacentSamples])
    (by decide) with ⟨depth, symbol, isDepth, found, -, -, place⟩
  have outermost : some ((0 : Nat) : Int) = some (depth : Int) := isDepth
  obtain rfl := Int.ofNat_inj.1 (some_inj.1 outermost)
  cases found
  exact absurd (place rfl).1 (by decide)

end CallNodeTable

end SysAnalyzer.LogicWorker
