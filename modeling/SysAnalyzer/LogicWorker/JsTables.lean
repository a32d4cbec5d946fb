import SysAnalyzer.Foundation.PropertyMap
import SysAnalyzer.LogicWorker.JsChart

/-!
# The tables of the JS profiler

`combineTopDownData` merges the selected frames of a chart that are called alike,
level by level.  `combineBottomUpData` turns every selected frame with time of its
own round, into a chain of its callers, and merges the chains in the same way.

Rows are of one function when they have the same key, the name and the `url` in
one text.  Both tables have the same own time for every such text.  Functions that
share a text are told apart by neither table, and what each of them has of their
time depends on which of them comes first on a path.
-/

namespace SysAnalyzer.LogicWorker

open Foundation List

/-- `JsCpuProfilerTabStruct` without other rows. -/
structure TabStruct where
  name : String
  selfTime : Nat
  totalTime : Int
  depth : Option Int
  url : String
  line : Int
  column : Int

/-- A row with its `children`. -/
abbrev TabTree := MergeTree TabStruct

def symbolKey (name url : String) (line column : Int) : String :=
  let symbolKey := name ++ " " ++ url
  if name = lambdaFunctionName then symbolKey ++ " " ++ toString line ++ " " ++ toString column
  else symbolKey

/-- A function: its name and `url`, and for an anonymous one its line and column. -/
abbrev FunctionKey := String × String × Option (Int × Int)

def functionKey (name url : String) (line column : Int) : FunctionKey :=
  (name, url, if name = lambdaFunctionName then some (line, column) else none)

/-- The text of a function in `symbolKey`. -/
def FunctionKey.text : FunctionKey → String
  | (name, url, none) => name ++ " " ++ url
  | (name, url, some (line, column)) =>
    name ++ " " ++ url ++ " " ++ toString line ++ " " ++ toString column

theorem text_functionKey (name url : String) (line column : Int) :
    (functionKey name url line column).text = symbolKey name url line column := by
  unfold functionKey symbolKey
  split_ifs <;> rfl

namespace ChartFrame

def key (frame : ChartFrame) : String := symbolKey frame.name frame.url frame.line frame.column

def functionKey (frame : ChartFrame) : FunctionKey :=
  LogicWorker.functionKey frame.name frame.url frame.line frame.column

def chartFrameToTabStruct (chartCallChain : ChartFrame) : TabStruct where
  name := chartCallChain.name
  selfTime := chartCallChain.selfTime
  totalTime := chartCallChain.totalTime
  depth := chartCallChain.depth
  url := chartCallChain.url
  line := chartCallChain.line
  column := chartCallChain.column

def cloneChartFrame (frame : ChartFrame) : ChartFrame :=
  { frame with selfTime := 0, samplesIds := [], isSelect := true }

end ChartFrame

namespace TabStruct

def key (row : TabStruct) : String := symbolKey row.name row.url row.line row.column

def functionKey (row : TabStruct) : FunctionKey :=
  LogicWorker.functionKey row.name row.url row.line row.column

end TabStruct

/-- A frame goes to the row of its function, its children to those of the row. -/
def mergeFrame (chartFrame : ChartTree) (tabCallFrame : Option (TabStruct × List ChartTree)) :
    TabStruct × List ChartTree :=
  match tabCallFrame with
  | none => (chartFrame.data.chartFrameToTabStruct, chartFrame.children)
  | some (row, chartFrameChildren) =>
    ({ row with
      totalTime := row.totalTime + chartFrame.data.totalTime
      selfTime := row.selfTime + chartFrame.data.selfTime },
      chartFrameChildren ++ chartFrame.children)

def selected (chartArray : List ChartTree) : List ChartTree :=
  chartArray.filter fun tree => tree.data.isSelect

/-- The rows of a level by their keys. -/
def sameSymbolMap (chartArray : List ChartTree) : List (String × (TabStruct × List ChartTree)) :=
  group (fun tree => tree.data.key) mergeFrame (selected chartArray)

def selectedFrames (chartArray : List ChartTree) : List ChartFrame :=
  reachedAll ChartFrame.isSelect chartArray

theorem sum_selectedFrames (amount : ChartFrame → Nat) (chartArray : List ChartTree) :
    ((selectedFrames chartArray).map amount).sum =
      ((selected chartArray).map fun tree => amount tree.data).sum +
        ((sameSymbolMap chartArray).map fun entry =>
          ((selectedFrames entry.2.2).map amount).sum).sum := by
  have below : ((sameSymbolMap chartArray).map fun entry =>
    ((selectedFrames entry.2.2).map amount).sum).sum = ((selected chartArray).map fun tree =>
      ((selectedFrames tree.children).map amount).sum).sum := by
    refine sum_group _ _ (fun value : TabStruct × List ChartTree =>
      ((selectedFrames value.2).map amount).sum) fun tree _ value => ?_
    cases value with
    | none => simp [mergeFrame]
    | some value => simp [mergeFrame, selectedFrames, reachedAll_append]
  rw [below, ← sum_map_add]
  clear below
  induction chartArray with
  | nil => rfl
  | cons tree chartArray induction =>
    rcases tree with ⟨frame, children⟩
    have rest : ((reachedAll ChartFrame.isSelect chartArray).map amount).sum = _ := induction
    by_cases isSelect : frame.isSelect = true
    · simp [selectedFrames, selected, reachedAll, reached, isSelect, rest, add_assoc]
    · simp [selectedFrames, selected, reachedAll, reached, isSelect, rest]

theorem length_selectedFrames_lt {chartArray : List ChartTree}
    {entry : String × (TabStruct × List ChartTree)} (member : entry ∈ sameSymbolMap chartArray) :
    (selectedFrames entry.2.2).length < (selectedFrames chartArray).length := by
  have count := sum_selectedFrames (fun _ => 1) chartArray
  simp only [map_const', sum_replicate_nat, mul_one] at count
  have part : (selectedFrames entry.2.2).length ≤ ((sameSymbolMap chartArray).map fun entry =>
    (selectedFrames entry.2.2).length).sum :=
    single_le_sum (by simp) _ (mem_map_of_mem member)
  rcases (mem_keys_group _ _ _ _).1 (mem_map_of_mem member) with ⟨_, isSelected, -⟩
  have some := length_pos_of_mem isSelected
  omega

def combineTopDownData (chartArray : List ChartTree) : List TabTree :=
  (sameSymbolMap chartArray).attach.map fun entry =>
    .node entry.1.2.1 (combineTopDownData entry.1.2.2)
  termination_by (selectedFrames chartArray).length
  decreasing_by exact length_selectedFrames_lt entry.2

/-- `copyParent`: the frames that a frame has above it take its times. -/
def copyParent (frame : ChartFrame) : (parents : List ChartFrame) → List ChartTree
  | [] => []
  | parent :: parents =>
    [.node
      { parent.cloneChartFrame with
        selfTime := frame.selfTime
        totalTime := frame.totalTime }
      (copyParent frame parents)]

mutual

/-- `recursionTree`, with the frames above the frame. -/
def reverseFrame (parents : List ChartFrame) : ChartTree → List ChartTree
  | .node chartFrame children =>
    if chartFrame.isSelect then
      (if 0 < chartFrame.selfTime then
        let copyFrame :=
          { chartFrame.cloneChartFrame with
            selfTime := chartFrame.selfTime
            totalTime := chartFrame.totalTime }
        [.node copyFrame (copyParent copyFrame parents)]
      else
        []) ++
        reverseFrames (chartFrame :: parents) children
    else []

/-- `recursionTree` of frames beside each other. -/
def reverseFrames (parents : List ChartFrame) : List ChartTree → List ChartTree
  | [] => []
  | tree :: trees => reverseFrame parents tree ++ reverseFrames parents trees

end

/-- `reverseChartFrameTree`, with what the `parent` of a frame leads to. -/
def reverseChartFrameTree (parents : ChartTree → List ChartFrame)
    (chartTreeArray : List ChartTree) : List ChartTree :=
  chartTreeArray.flatMap fun tree => reverseFrame (parents tree) tree

def combineBottomUpData (parents : ChartTree → List ChartFrame)
    (chartTreeArray : List ChartTree) : List TabTree :=
  combineTopDownData (reverseChartFrameTree parents chartTreeArray)

/-! ## Own times -/

def selfTimeOfFrames (key : String) (frames : List ChartFrame) : Nat :=
  (frames.map fun frame => if frame.key = key then frame.selfTime else 0).sum

section Agree

variable {Key : Type} [DecidableEq Key] (keyOf : TabStruct → Key)

def selfTimeOfRows (key : Key) (rows : List TabStruct) : Nat :=
  (rows.map fun row => if keyOf row = key then row.selfTime else 0).sum

def selfTimeOfRow (key : Key) (table : List TabTree) : Nat :=
  ((table.find? fun tree => keyOf tree.data = key).map fun tree => tree.data.selfTime).getD 0

structure TablesAgree (chartTreeArray : List ChartTree)
    (topDown bottomUp : List TabTree) : Prop where
  functions : ∀ key, selfTimeOfRows keyOf key (reachedAll (fun _ => true) topDown) =
    selfTimeOfRow keyOf key bottomUp
  whole : (bottomUp.map fun tree => tree.data.selfTime).sum =
    ((selectedFrames chartTreeArray).map ChartFrame.selfTime).sum

end Agree

def IsOfKey (key : String) (row : TabStruct × List ChartTree) : Prop := row.1.key = key

theorem isOfKey_mergeFrame (chartFrame : ChartTree) (row : Option (TabStruct × List ChartTree))
    (ofKey : ∀ old ∈ row, IsOfKey chartFrame.data.key old) :
    IsOfKey chartFrame.data.key (mergeFrame chartFrame row) := by
  cases row with
  | none => rfl
  | some row => exact ofKey row rfl

theorem sum_sameSymbolMap (key : String) (chartArray : List ChartTree) :
    ((sameSymbolMap chartArray).map fun entry =>
      if entry.2.1.key = key then entry.2.1.selfTime else 0).sum =
      ((selected chartArray).map fun tree =>
        if tree.data.key = key then tree.data.selfTime else 0).sum := by
  refine sum_group_of _ _ (fun tree _ => isOfKey_mergeFrame tree)
    (fun value : TabStruct × List ChartTree => if value.1.key = key then value.1.selfTime else 0)
    fun tree _ row ofKey => ?_
  rw [isOfKey_mergeFrame tree row ofKey]
  cases row with
  | none => simp [mergeFrame, ChartFrame.chartFrameToTabStruct]
  | some row =>
    rw [Option.map_some, Option.getD_some, ofKey row rfl]
    split_ifs <;> rfl

theorem combineTopDownData_eq (chartArray : List ChartTree) :
    combineTopDownData chartArray = (sameSymbolMap chartArray).map fun entry =>
      .node entry.2.1 (combineTopDownData entry.2.2) := by
  conv_lhs => rw [combineTopDownData]
  exact attach_map_val (f := fun entry : String × (TabStruct × List ChartTree) =>
    MergeTree.node entry.2.1 (combineTopDownData entry.2.2))

theorem selfTimeOfRows_combineTopDownData (key : String) (chartArray : List ChartTree) :
    selfTimeOfRows TabStruct.key key (reachedAll (fun _ => true) (combineTopDownData chartArray)) =
      selfTimeOfFrames key (selectedFrames chartArray) := by
  induction chartArray using combineTopDownData.induct with
  | case1 chartArray induction =>
    rw [selfTimeOfFrames, sum_selectedFrames, ← sum_sameSymbolMap,
      ← sum_map_add, combineTopDownData_eq, reachedAll_eq_flatMap, flatMap_map,
      selfTimeOfRows, map_flatMap, flatMap_def, sum_flatten, map_map]
    refine congrArg sum (map_congr_left fun entry member => ?_)
    have below := induction ⟨entry, member⟩
    simp only [selfTimeOfRows, selfTimeOfFrames] at below
    simp [reached, below]

theorem selfTimeOfRow_combineTopDownData (key : String) (chartArray : List ChartTree) :
    selfTimeOfRow TabStruct.key key (combineTopDownData chartArray) =
      ((selected chartArray).map fun tree =>
        if tree.data.key = key then tree.data.selfTime else 0).sum := by
  have keys := forall_group _ _ fun (tree : ChartTree)
    (_ : tree ∈ selected chartArray) => isOfKey_mergeFrame tree
  have distinct := nodup_keys_group (fun tree : ChartTree => tree.data.key)
    mergeFrame (selected chartArray)
  rw [← sum_sameSymbolMap, combineTopDownData_eq, selfTimeOfRow, ← sum_of_key]
  · rw [map_map]
    rfl
  · rw [map_map]
    rw [← map_congr_left keys] at distinct
    exact distinct

/-! ## Turned frames -/

def busyFrames (chartArray : List ChartTree) : List ChartFrame :=
  (selectedFrames chartArray).filter fun frame => 0 < frame.selfTime

/-- The first frame of a turned chain. -/
def ChartFrame.copyFrame (frame : ChartFrame) : ChartFrame :=
  { frame.cloneChartFrame with
    selfTime := frame.selfTime
    totalTime := frame.totalTime }

mutual

theorem data_reverseFrame :
    ∀ (parents : List ChartFrame) (tree : ChartTree),
      (selected (reverseFrame parents tree)).map MergeTree.data =
        ((reached ChartFrame.isSelect tree).filter fun frame =>
          0 < frame.selfTime).map ChartFrame.copyFrame
  | parents, .node frame children => by
    have below := data_reverseFrames (frame :: parents) children
    rw [selected] at below
    rw [reverseFrame, reached]
    by_cases isSelect : frame.isSelect = true
    · by_cases busy : 0 < frame.selfTime
      · simp [isSelect, busy, selected, filter_cons, ChartFrame.copyFrame,
          ChartFrame.cloneChartFrame, below]
      · simp [isSelect, busy, selected, below]
    · simp [isSelect, selected]

theorem data_reverseFrames :
    ∀ (parents : List ChartFrame) (trees : List ChartTree),
      (selected (reverseFrames parents trees)).map MergeTree.data =
        ((reachedAll ChartFrame.isSelect trees).filter fun frame =>
          0 < frame.selfTime).map ChartFrame.copyFrame
  | _, [] => rfl
  | parents, tree :: trees => by
    have here := data_reverseFrame parents tree
    have beside := data_reverseFrames parents trees
    simp only [selected] at here beside
    simp [reverseFrames, reachedAll, selected, here, beside]

end

theorem data_reverseChartFrameTree (parents : ChartTree → List ChartFrame)
    (chartTreeArray : List ChartTree) :
    (selected (reverseChartFrameTree parents chartTreeArray)).map MergeTree.data =
      (busyFrames chartTreeArray).map ChartFrame.copyFrame := by
  unfold busyFrames selectedFrames reverseChartFrameTree
  induction chartTreeArray with
  | nil => rfl
  | cons tree chartTreeArray induction =>
    have here := data_reverseFrame (parents tree) tree
    simp only [selected] at here induction
    simp [reachedAll, selected, here, induction]

/-- A number of each selected frame, none of those without time, is summed up
over the turned frames. -/
theorem sum_reverseChartFrameTree (parents : ChartTree → List ChartFrame)
    (chartTreeArray : List ChartTree) {amount : ChartFrame → Nat}
    (copied : ∀ frame : ChartFrame, amount frame.copyFrame = amount frame)
    (idle : ∀ frame : ChartFrame, frame.selfTime = 0 → amount frame = 0) :
    ((selected (reverseChartFrameTree parents chartTreeArray)).map fun copy =>
      amount copy.data).sum = ((selectedFrames chartTreeArray).map amount).sum := by
  have turned := congrArg (map amount) (data_reverseChartFrameTree parents chartTreeArray)
  rw [map_map, map_map] at turned
  refine (congrArg sum turned).trans ?_
  unfold busyFrames
  induction selectedFrames chartTreeArray with
  | nil => rfl
  | cons frame frames induction =>
    by_cases busy : 0 < frame.selfTime
    · simpa [busy, copied] using induction
    · have none := idle frame (Nat.eq_zero_of_not_pos busy)
      simpa [busy, none] using induction

/-- The tables agree for every forest of chart frames, as far as the texts tell
functions apart. -/
theorem combineTopDownData_agrees (parents : ChartTree → List ChartFrame)
    (chartTreeArray : List ChartTree) :
    TablesAgree TabStruct.key chartTreeArray (combineTopDownData chartTreeArray)
      (combineBottomUpData parents chartTreeArray) := by
  refine ⟨fun key => ?_, ?_⟩
  · rw [selfTimeOfRows_combineTopDownData, combineBottomUpData, selfTimeOfRow_combineTopDownData]
    refine (@sum_reverseChartFrameTree parents chartTreeArray
      (fun frame => if frame.key = key then frame.selfTime else 0) ?_ ?_).symm
    · exact fun frame => rfl
    · exact fun frame none => by simp [none]
  · rw [combineBottomUpData, combineTopDownData_eq, map_map,
      ← sum_reverseChartFrameTree parents chartTreeArray (fun _ => rfl) fun _ none => none]
    refine sum_group _ _ (fun value : TabStruct × List ChartTree =>
      value.1.selfTime) fun tree _ row => ?_
    cases row with
    | none => simp [mergeFrame, ChartFrame.chartFrameToTabStruct]
    | some row => rfl

/-! ## Functions that share a text -/

/-- The selected trees of a level with one text. -/
def alike (text : String) (chartArray : List ChartTree) : List ChartTree :=
  (selected chartArray).filter fun tree => tree.data.key = text

/-- The selected trees that a path of texts leads to, in their order. -/
def along (text : String) : (path : List String) → List ChartTree → List ChartTree
  | [], chartArray => alike text chartArray
  | next :: path, chartArray => along next path ((alike text chartArray).flatMap MergeTree.children)

/-- On every path that leads to a frame with own time, the first frame is of the
same function as the first one of the whole chart with that text and own time. -/
def FirstsAgree (chartArray : List ChartTree) : Prop :=
  ∀ (text : String) (path : List String) (first : ChartTree) (rest : List ChartTree),
    along text path chartArray = first :: rest →
    0 < ((first :: rest).map fun tree => tree.data.selfTime).sum →
    ((busyFrames chartArray).find? fun frame => frame.key = first.data.key).map
      ChartFrame.functionKey = some first.data.functionKey

theorem text_key (row : TabStruct) : row.functionKey.text = row.key := text_functionKey ..

theorem gather_mergeFrame (first : ChartTree) (rest : List ChartTree) :
    ∃ row : TabStruct, gather mergeFrame (first :: rest) =
        some (row, (first :: rest).flatMap MergeTree.children) ∧
      row.functionKey = first.data.functionKey ∧
      row.selfTime = ((first :: rest).map fun tree => tree.data.selfTime).sum := by
  induction rest using reverseRecOn with
  | nil => exact ⟨first.data.chartFrameToTabStruct, by simp [gather, mergeFrame], rfl, by
      simp [ChartFrame.chartFrameToTabStruct]⟩
  | append_singleton rest tree induction =>
    rcases induction with ⟨row, gathered, isFirst, time⟩
    refine ⟨(mergeFrame tree (some (row, []))).1, ?_, isFirst, ?_⟩
    · rw [← cons_append, gather_concat, gathered]
      simp [mergeFrame]
    · simp [mergeFrame, time, add_assoc]

/-- The row of a text is that of the first tree with it. -/
theorem row_of_mem {chartArray : List ChartTree} {entry : String × (TabStruct × List ChartTree)}
    (member : entry ∈ sameSymbolMap chartArray) :
    ∃ first rest, alike entry.1 chartArray = first :: rest ∧
      entry.2.1.functionKey = first.data.functionKey ∧
      entry.2.1.selfTime = ((first :: rest).map fun tree => tree.data.selfTime).sum ∧
      entry.2.2 = (first :: rest).flatMap MergeTree.children := by
  have gathered := (mem_group_iff _ _).1 member
  rcases exists_head_of_gather _ _ gathered with ⟨first, rest, trees, -⟩
  rw [trees] at gathered
  rcases gather_mergeFrame first rest with ⟨row, isRow, isFirst, time⟩
  rw [isRow, Option.some.injEq] at gathered
  rw [← gathered]
  exact ⟨first, rest, trees, isFirst, time, rfl⟩

theorem exists_row {text : String} {chartArray : List ChartTree} {first : ChartTree}
    {rest : List ChartTree} (trees : alike text chartArray = first :: rest) :
    ∃ entry ∈ sameSymbolMap chartArray, entry.1 = text := by
  rcases gather_mergeFrame first rest with ⟨row, isRow, -⟩
  exact ⟨(text, row, _), (mem_group_iff _ _).2 ((congrArg _ trees).trans isRow), rfl⟩

theorem along_nil (text : String) (path : List String) : along text path [] = [] := by
  induction path generalizing text with
  | nil => rfl
  | cons next path induction => exact induction next

/-- The rows of the table are what the paths lead to. -/
theorem forall_rows_iff (holds : FunctionKey → Nat → Prop) (chartArray : List ChartTree) :
    (∀ row ∈ reachedAll (fun _ => true) (combineTopDownData chartArray),
      holds row.functionKey row.selfTime) ↔
      ∀ (text : String) (path : List String) (first : ChartTree) (rest : List ChartTree),
        along text path chartArray = first :: rest → holds first.data.functionKey
          ((first :: rest).map fun tree => tree.data.selfTime).sum := by
  induction chartArray using combineTopDownData.induct with
  | case1 chartArray induction =>
    simp only [combineTopDownData_eq chartArray, reachedAll_eq_flatMap, mem_flatMap, List.mem_map]
    constructor
    · intro rows text path first rest trees
      cases path with
      | nil =>
        rcases exists_row trees with ⟨entry, member, rfl⟩
        rcases row_of_mem member with ⟨first', rest', trees', isFirst, time, -⟩
        cases trees'.symm.trans trees
        rw [← isFirst, ← time]
        exact rows _ ⟨_, ⟨entry, member, rfl⟩, by simp [reached]⟩
      | cons next path =>
        cases level : alike text chartArray with
        | nil =>
          rw [along, level, flatMap_nil, along_nil] at trees
          cases trees
        | cons top others =>
          rcases exists_row level with ⟨entry, member, rfl⟩
          rcases row_of_mem member with ⟨top', others', level', -, -, below⟩
          rw [along, level', ← below] at trees
          refine (induction ⟨entry, member⟩).1 (fun row isBelow => ?_) _ _ _ _ trees
          exact rows row ⟨_, ⟨entry, member, rfl⟩, by simp [reached, isBelow]⟩
    · rintro paths row ⟨_, ⟨entry, member, rfl⟩, isRow⟩
      rcases row_of_mem member with ⟨first, rest, trees, isFirst, time, below⟩
      rw [reached, if_pos rfl, mem_cons] at isRow
      rcases isRow with rfl | isBelow
      · rw [isFirst, time]
        exact paths _ [] _ _ trees
      · refine (induction ⟨entry, member⟩).2 (fun text path first' rest' trees' =>
          ?_) row isBelow
        refine paths entry.1 (text :: path) _ _ ?_
        rw [along, trees, ← below, trees']

theorem selfTimeOfRow_functionKey (key : FunctionKey) (chartArray : List ChartTree) :
    selfTimeOfRow TabStruct.functionKey key (combineTopDownData chartArray) =
      if (alike key.text chartArray).head?.map (fun tree => tree.data.functionKey) = some key then
        selfTimeOfRow TabStruct.key key.text (combineTopDownData chartArray)
      else 0 := by
  have texts := forall_group _ _ fun (tree : ChartTree)
    (_ : tree ∈ selected chartArray) => isOfKey_mergeFrame tree
  have distinct := nodup_keys_group (fun tree : ChartTree => tree.data.key)
    mergeFrame (selected chartArray)
  rw [← map_congr_left texts] at distinct
  have distinctKeys : ((sameSymbolMap chartArray).map fun entry =>
      entry.2.1.functionKey).Nodup := by
    refine Nodup.of_map FunctionKey.text ?_
    rw [map_map]
    simp only [Function.comp_def, text_key]
    exact distinct
  have ofTable {Key : Type} [DecidableEq Key] (keyOf : TabStruct → Key) (wanted : Key)
      (different : ((sameSymbolMap chartArray).map fun entry => keyOf entry.2.1).Nodup) :
      selfTimeOfRow keyOf wanted (combineTopDownData chartArray) =
        ((sameSymbolMap chartArray).map fun entry =>
          if keyOf entry.2.1 = wanted then entry.2.1.selfTime else 0).sum := by
    rw [combineTopDownData_eq, selfTimeOfRow, ← sum_of_key]
    · rw [map_map]
      rfl
    · rw [map_map]
      exact different
  rw [ofTable _ _ distinctKeys, ofTable _ _ distinct]
  split_ifs with isFirst
  · refine congrArg sum (map_congr_left fun entry member => if_congr ?_ rfl rfl)
    rcases row_of_mem member with ⟨first, rest, trees, ofFirst, -⟩
    refine ⟨fun same => same ▸ (text_key _).symm, fun same => ?_⟩
    have isText : entry.1 = key.text := (texts entry member).symm.trans same
    rw [← isText, trees] at isFirst
    exact ofFirst.trans (Option.some_inj.1 isFirst)
  · refine sum_eq_zero fun time isTime => ?_
    rcases List.mem_map.1 isTime with ⟨entry, member, rfl⟩
    refine if_neg fun same => isFirst ?_
    rcases row_of_mem member with ⟨first, rest, trees, ofFirst, -⟩
    have isText : key.text = entry.1 := by
      rw [← same, text_key]
      exact texts entry member
    rw [isText, trees, ← same, ofFirst]
    rfl

theorem head_alike_reverseChartFrameTree (text : String) (parents : ChartTree → List ChartFrame)
    (chartTreeArray : List ChartTree) :
    ((alike text (reverseChartFrameTree parents chartTreeArray)).head?.map fun tree =>
      tree.data.functionKey) =
      ((busyFrames chartTreeArray).find? fun frame => frame.key = text).map
        ChartFrame.functionKey := by
  have turned := congrArg (fun frames => (frames.find? fun frame =>
    frame.key = text).map ChartFrame.functionKey)
    (data_reverseChartFrameTree parents chartTreeArray)
  simp only [find?_map, Option.map_map] at turned
  rw [alike, head?_filter]
  exact turned

/-- The tables agree on the functions exactly when each path's first frame is of the
function that is first in the chart. -/
theorem tablesAgree_iff (parents : ChartTree → List ChartFrame)
    (chartTreeArray : List ChartTree) :
    TablesAgree TabStruct.functionKey chartTreeArray (combineTopDownData chartTreeArray)
      (combineBottomUpData parents chartTreeArray) ↔ FirstsAgree chartTreeArray := by
  have texts := combineTopDownData_agrees parents chartTreeArray
  have ofRow (key : FunctionKey) : selfTimeOfRow TabStruct.functionKey key
      (combineBottomUpData parents chartTreeArray) =
      if ((busyFrames chartTreeArray).find? fun frame => frame.key = key.text).map
        ChartFrame.functionKey = some key then
        selfTimeOfRows TabStruct.key key.text
          (reachedAll (fun _ => true) (combineTopDownData chartTreeArray))
      else 0 := by
    rw [texts.functions, combineBottomUpData, selfTimeOfRow_functionKey,
      head_alike_reverseChartFrameTree]
  have rows := forall_rows_iff (fun key selfTime => 0 < selfTime →
    ((busyFrames chartTreeArray).find? fun frame => frame.key = key.text).map
      ChartFrame.functionKey = some key) chartTreeArray
  simp only [ChartFrame.functionKey, text_functionKey] at rows
  refine Iff.trans ⟨fun agree row member busy => ?_,
    fun firsts => ⟨fun key => ?_, texts.whole⟩⟩ rows
  · by_contra other
    have none := agree.functions row.functionKey
    rw [ofRow, if_neg other, selfTimeOfRows] at none
    have part := single_le_sum (by simp) _ (mem_map_of_mem (f := fun other : TabStruct =>
      if other.functionKey = row.functionKey then other.selfTime else 0) member)
    rw [none, if_pos rfl] at part
    exact Nat.not_le_of_lt busy part
  · rw [ofRow]
    split_ifs with isFirst
    · refine congrArg sum (map_congr_left fun row member => ?_)
      rcases Nat.eq_zero_or_pos row.selfTime with idle | busy
      · simp [idle]
      · refine if_congr ⟨fun same => same ▸ (text_key _).symm, fun same => ?_⟩ rfl rfl
        have ofRowText := firsts row member busy
        rw [text_key, same, isFirst] at ofRowText
        exact (Option.some_inj.1 ofRowText).symm
    · refine sum_eq_zero fun time isTime => ?_
      rcases List.mem_map.1 isTime with ⟨row, member, rfl⟩
      rcases Nat.eq_zero_or_pos row.selfTime with idle | busy
      · simp [idle]
      · refine if_neg fun same => isFirst ?_
        rw [← same]
        exact firsts row member busy

theorem mem_selectedFrames {frame : ChartFrame} {tree : ChartTree} {chartArray : List ChartTree}
    {text : String} (member : tree ∈ alike text chartArray)
    (isFrame : frame ∈ tree.data :: selectedFrames tree.children) :
    frame ∈ selectedFrames chartArray := by
  rcases mem_filter.1 (mem_filter.1 member).1 with ⟨inChart, isSelect⟩
  rw [selectedFrames, reachedAll_eq_flatMap, mem_flatMap]
  refine ⟨tree, inChart, ?_⟩
  rcases tree with ⟨data, children⟩
  rw [reached, if_pos (show data.isSelect = true from isSelect)]
  exact isFrame

theorem mem_along (text : String) (path : List String) (chartArray : List ChartTree) :
    ∃ last, ∀ tree ∈ along text path chartArray,
      tree.data ∈ selectedFrames chartArray ∧ tree.data.key = last := by
  induction path generalizing text chartArray with
  | nil =>
    exact ⟨text, fun tree member => ⟨mem_selectedFrames member mem_cons_self,
      of_decide_eq_true (mem_filter.1 member).2⟩⟩
  | cons next path induction =>
    rcases induction next ((alike text chartArray).flatMap MergeTree.children) with ⟨last, ofPath⟩
    refine ⟨last, fun tree member => ⟨?_, (ofPath tree member).2⟩⟩
    have isBelow := (ofPath tree member).1
    rw [selectedFrames, reachedAll_eq_flatMap, mem_flatMap] at isBelow
    rcases isBelow with ⟨child, isChild, inChild⟩
    rcases mem_flatMap.1 isChild with ⟨parent, isParent, ofParent⟩
    refine mem_selectedFrames isParent (mem_cons_of_mem _ ?_)
    rw [selectedFrames, reachedAll_eq_flatMap]
    exact mem_flatMap.2 ⟨child, ofParent, inChild⟩

/-- It is enough that no two selected frames of different functions share a text. -/
theorem firstsAgree_of_textsApart {chartArray : List ChartTree}
    (apart : ∀ first ∈ selectedFrames chartArray, ∀ second ∈ selectedFrames chartArray,
      first.key = second.key → first.functionKey = second.functionKey) :
    FirstsAgree chartArray := by
  intro text path first rest trees busy
  rcases mem_along text path chartArray with ⟨last, reaches⟩
  rw [trees, forall_mem_cons] at reaches
  rcases exists_mem_ne_zero_of_sum_ne_zero (Nat.ne_of_gt busy) with ⟨time, isTime, positive⟩
  rcases List.mem_map.1 isTime with ⟨tree, member, rfl⟩
  have reached : tree.data ∈ selectedFrames chartArray ∧ tree.data.key = last := by
    rcases mem_cons.1 member with rfl | isRest
    · exact reaches.1
    · exact reaches.2 tree isRest
  cases found : (busyFrames chartArray).find? fun frame => frame.key = first.data.key with
  | none =>
    have isBusy : tree.data ∈ busyFrames chartArray :=
      mem_filter.2 ⟨reached.1, decide_eq_true (Nat.pos_of_ne_zero positive)⟩
    have other := find?_eq_none.1 found _ isBusy
    rw [reached.2, reaches.1.2] at other
    simp at other
  | some frame =>
    have isFrame := (mem_filter.1 (mem_of_find?_eq_some found)).1
    have isKey := of_decide_eq_true (find?_some found :)
    rw [Option.map_some, apart frame isFrame first.data reaches.1.1 isKey]

/-- The frame `p` calls `a` of `b c`, and `a b` of `c` stands beside it. -/
def sharedText : List ChartTree :=
  let frame (name url : String) (selfTime : Nat) : ChartFrame :=
    { name, startTime := 0, endTime := 3, totalTime := selfTime, depth := some 0, url
      line := 1, column := 1, selfTime, isSelect := true }
  [.node (frame "p" "u" 0) [.node (frame "a" "b c" 2) []], .node (frame "a b" "c" 1) []]

theorem not_tablesAgree_sharedText : ¬ TablesAgree TabStruct.functionKey sharedText
    (combineTopDownData sharedText) (combineBottomUpData (fun _ => []) sharedText) := by
  intro agree
  have ofFunction := agree.functions ("a", "b c", none)
  have topDown : selfTimeOfRows TabStruct.functionKey ("a", "b c", none)
      (reachedAll (fun _ => true) (combineTopDownData sharedText)) = 2 := by
    decide +kernel
  have bottomUp : selfTimeOfRow TabStruct.functionKey ("a", "b c", none)
      (combineBottomUpData (fun _ => []) sharedText) = 3 := by
    decide +kernel
  rw [topDown, bottomUp] at ofFunction
  cases ofFunction

end SysAnalyzer.LogicWorker
