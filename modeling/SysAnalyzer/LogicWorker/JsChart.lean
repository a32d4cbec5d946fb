import Mathlib.Data.List.Induction
import SysAnalyzer.Foundation.MergeTree

/-!
# The flame chart of the JS profiler

`createCallChain` names the functions of the call node table and counts their
depths from the root on, which itself has the depth -1.  `combineChartData`
merges the stacks of the samples into a forest of frames.  A sample goes on with
the last frames beside each other, from the outermost down, as long as these have
its functions and end when it starts.  The rest of its stack is a new branch.

Every frame lasts as long as its own time and the frames below it together, and
the own times are those of the samples.
-/

namespace SysAnalyzer.LogicWorker

open Foundation List Option Function

/-- `JsProfilerSymbol`; the depth may be undefined. -/
structure JsProfilerSymbol where
  id : Nat
  nameId : Nat
  urlId : Nat
  line : Int
  column : Int
  parentId : Nat
  name : String := ""
  url : String := ""
  depth : Option Int := none

structure JsCpuProfilerSample where
  id : Nat
  functionId : Nat
  startTime : Int
  endTime : Int
  dur : Nat

/-- `JsCpuProfilerChartFrame` without other frames. -/
structure ChartFrame where
  name : String
  startTime : Int
  endTime : Int
  totalTime : Int
  depth : Option Int
  url : String
  line : Int
  column : Int
  selfTime : Nat := 0
  samplesIds : List Nat := []
  isSelect : Bool := false

/-- A frame with its `children`. -/
abbrev ChartTree := MergeTree ChartFrame

def rootId : Nat := 1

def lambdaFunctionName : String := "(anonymous)"

/-- A text of the dictionary, or another one where it has none. -/
def dictText (dataDict : Nat → Option String) (textId : Nat) (other : String) : String :=
  ((dataDict textId).filter (· ≠ "")).getD other

namespace JsProfilerSymbol

/-- One node in `createCallChain`. -/
def addToMap (dataDict : Nat → Option String)
    (jsSymbolMap : Nat → Option JsProfilerSymbol) (item : JsProfilerSymbol) :
    Nat → Option JsProfilerSymbol :=
  let named : JsProfilerSymbol :=
    { item with
      depth := if item.id = rootId then some (-1) else item.depth
      name := dictText dataDict item.nameId lambdaFunctionName
      url := dictText dataDict item.urlId "unknown" }
  let symbols := Function.update jsSymbolMap item.id (some named)
  match if 0 < item.parentId then symbols item.parentId else none with
  | none => symbols
  | some parentSymbol =>
    Function.update symbols item.id (some { named with depth := parentSymbol.depth.map (· + 1) })

def createCallChain (dataDict : Nat → Option String)
    (jsCallChain : List JsProfilerSymbol) : Nat → Option JsProfilerSymbol :=
  jsCallChain.foldl (addToMap dataDict) fun _ => none

/-- The loop of `getFullCallChainOfNode`, as far as some steps. -/
def callersOf (jsSymbolMap : Nat → Option JsProfilerSymbol) :
    (steps : Nat) → JsProfilerSymbol → Option (List JsProfilerSymbol)
  | 0, _ => none
  | steps + 1, node =>
    if node.parentId = 0 then some [node]
    else
      match jsSymbolMap node.parentId with
      | none => some [node]
      | some parent =>
        if parent.id ≤ rootId then some [node]
        else (callersOf jsSymbolMap steps parent).map (node :: ·)

def getFullCallChainOfNode (jsSymbolMap : Nat → Option JsProfilerSymbol)
    (steps : Nat) (node : JsProfilerSymbol) : Option (List JsProfilerSymbol) :=
  (callersOf jsSymbolMap steps node).map reverse

def isSymbolEqual (symbol : JsProfilerSymbol) (uiData : ChartFrame) : Bool :=
  symbol.name = uiData.name && symbol.url = uiData.url

end JsProfilerSymbol

open JsProfilerSymbol

namespace JsCpuProfilerSample

def symbolToChartFrame (sample : JsCpuProfilerSample) (symbol : JsProfilerSymbol) : ChartFrame where
  name := if symbol.name = "" then lambdaFunctionName else symbol.name
  startTime := sample.startTime
  endTime := sample.endTime
  totalTime := sample.dur
  depth := symbol.depth
  url := symbol.url
  line := symbol.line
  column := symbol.column
  samplesIds := [sample.id]

/-- New frames for a function and those above it on the stack.  The last one has
the time of the sample as its own. -/
def newFrames (sample : JsCpuProfilerSample) (symbol : JsProfilerSymbol) :
    (stack : List JsProfilerSymbol) → ChartTree
  | [] => .node { sample.symbolToChartFrame symbol with selfTime := sample.dur } []
  | next :: stack => .node (sample.symbolToChartFrame symbol) [sample.newFrames next stack]

/-- A function of a sample is that of a frame that ends when the sample starts. -/
def fits (sample : JsCpuProfilerSample) (idx : Nat) (symbol : JsProfilerSymbol)
    (frame : ChartFrame) : Bool :=
  symbol.isSymbolEqual frame && frame.depth = some (idx : Int) && frame.endTime = sample.startTime

def prolong (sample : JsCpuProfilerSample) (frame : ChartFrame) : ChartFrame :=
  { frame with
    endTime := sample.endTime
    totalTime := sample.endTime - frame.startTime
    samplesIds := frame.samplesIds ++ [sample.id] }

/-- `combineCallChain` from a function on, below a frame that has been prolonged.
The next frame to look at is the last child, or the same one without children. -/
def combineBelow (sample : JsCpuProfilerSample) :
    (idx : Nat) → (stack : List JsProfilerSymbol) → ChartFrame → List ChartTree → ChartTree
  | _, [], frame, children => .node { frame with selfTime := frame.selfTime + sample.dur } children
  | idx, symbol :: stack, frame, children =>
    match children.getLast? with
    | some (.node last below) =>
      if sample.fits idx symbol last then
        .node frame (children.dropLast ++
          [sample.combineBelow (idx + 1) stack (sample.prolong last) below])
      else .node frame (children ++ [sample.newFrames symbol stack])
    | none =>
      if sample.fits idx symbol frame then
        sample.combineBelow (idx + 1) stack (sample.prolong frame) children
      else .node frame (children ++ [sample.newFrames symbol stack])

/-- `combineCallChain`; without a frame for the first function it fails. -/
def combineCallChain (sample : JsCpuProfilerSample) (symbol : JsProfilerSymbol)
    (stack : List JsProfilerSymbol) : (lastCallTree : ChartTree) → Option ChartTree
  | .node frame children =>
    if sample.fits 0 symbol frame then
      some (sample.combineBelow 1 stack (sample.prolong frame) children)
    else none

/-- A stack goes on with the last tree, or begins a new one. -/
def addStack (sample : JsCpuProfilerSample) (symbol : JsProfilerSymbol)
    (stack : List JsProfilerSymbol) (combineSample : List ChartTree) : Option (List ChartTree) :=
  match combineSample.getLast? with
  | none => some [sample.newFrames symbol stack]
  | some lastCallChart =>
    if symbol.isSymbolEqual lastCallChart.data && lastCallChart.data.endTime = sample.startTime then
      (sample.combineCallChain symbol stack lastCallChart).map fun tree =>
        combineSample.dropLast ++ [tree]
    else some (combineSample ++ [sample.newFrames symbol stack])

variable (jsSymbolMap : Nat → Option JsProfilerSymbol) (steps : Nat)

/-- One sample in `combineChartData`. -/
def addToChart (combineSample : List ChartTree) (sample : JsCpuProfilerSample) :
    Option (List ChartTree) :=
  match jsSymbolMap sample.functionId with
  | none => some combineSample
  | some stackTopSymbol =>
    if stackTopSymbol.id = rootId then some combineSample
    else
      match getFullCallChainOfNode jsSymbolMap steps stackTopSymbol with
      | none | some [] => none
      | some (symbol :: stack) => sample.addStack symbol stack combineSample

def combineChartData (samples : List JsCpuProfilerSample) : Option (List ChartTree) :=
  samples.foldlM (addToChart jsSymbolMap steps) []

/-- The `stack` that `combineChartData` gives to a sample, if any. -/
def stack (sample : JsCpuProfilerSample) : List JsProfilerSymbol :=
  match jsSymbolMap sample.functionId with
  | none => []
  | some stackTopSymbol =>
    if stackTopSymbol.id = rootId then []
    else (getFullCallChainOfNode jsSymbolMap steps stackTopSymbol).getD []

/-- The function of a sample is known and not the root. -/
def isShown (sample : JsCpuProfilerSample) : Bool :=
  (jsSymbolMap sample.functionId).any fun symbol => symbol.id != rootId

end JsCpuProfilerSample

/-- A table of call nodes: the root comes first and the others behind their
parents. -/
structure CallNodeTable where
  root : JsProfilerSymbol
  others : List JsProfilerSymbol
  root_id : root.id = rootId
  root_parentId : root.parentId = 0
  distinct : ((root :: others).map JsProfilerSymbol.id).Nodup
  parents : ∀ before node after, others = before ++ node :: after →
    node.parentId ≠ 0 ∧ node.parentId ∈ (root :: before).map JsProfilerSymbol.id

/-- The functions of a stack, the innermost first, lead to the root. -/
inductive CallChain (jsSymbolMap : Nat → Option JsProfilerSymbol) :
    List JsProfilerSymbol → Prop
  | outermost {symbol root : JsProfilerSymbol} (named : symbol.name ≠ "")
    (hasParent : symbol.parentId ≠ 0) (id : symbol.id ≠ rootId)
    (parent : jsSymbolMap symbol.parentId = some root)
    (isRoot : root.id = rootId) (depth : symbol.depth = some 0) :
    CallChain jsSymbolMap [symbol]
  | inner {symbol caller : JsProfilerSymbol} {callers : List JsProfilerSymbol}
    (named : symbol.name ≠ "") (hasParent : symbol.parentId ≠ 0) (id : symbol.id ≠ rootId)
    (parent : jsSymbolMap symbol.parentId = some caller)
    (isParent : caller.id = symbol.parentId)
    (depth : symbol.depth = some ((caller :: callers).length : Int))
    (above : CallChain jsSymbolMap (caller :: callers)) :
    CallChain jsSymbolMap (symbol :: caller :: callers)

namespace CallChain

variable {jsSymbolMap : Nat → Option JsProfilerSymbol}

theorem update {stack : List JsProfilerSymbol} (chain : CallChain jsSymbolMap stack) {id : Nat}
    (fresh : jsSymbolMap id = none) (node : Option JsProfilerSymbol) :
    CallChain (Function.update jsSymbolMap id node) stack := by
  have same {other : Nat} {symbol : JsProfilerSymbol} (known : jsSymbolMap other = some symbol) :
    Function.update jsSymbolMap id node other = some symbol := by
    rw [update_of_ne, known]
    rintro rfl
    rw [fresh] at known
    cases known
  induction chain with
  | outermost named hasParent id parent isRoot depth =>
    exact .outermost named hasParent id (same parent) isRoot depth
  | inner named hasParent id parent isParent depth above induction =>
    exact .inner named hasParent id (same parent) isParent depth induction

variable {symbol : JsProfilerSymbol}

theorem callersOf_eq {callers : List JsProfilerSymbol}
    (chain : CallChain jsSymbolMap (symbol :: callers)) {steps : Nat}
    (enough : callers.length < steps) :
    callersOf jsSymbolMap steps symbol = some (symbol :: callers) := by
  induction callers generalizing symbol steps with
  | nil =>
    cases chain with
    | outermost _ hasParent _ parent isRoot _ =>
      obtain ⟨steps, rfl⟩ := Nat.exists_eq_succ_of_ne_zero enough.ne'
      simp [callersOf, hasParent, parent, isRoot]
  | cons caller callers induction =>
    cases chain with
    | inner _ hasParent _ parent isParent _ above =>
      obtain ⟨steps, rfl⟩ := Nat.exists_eq_succ_of_ne_zero (Nat.ne_zero_of_lt enough)
      have further : ¬caller.id ≤ rootId := by
        have notRoot : caller.id ≠ rootId := by cases above <;> assumption
        unfold rootId at *
        omega
      simp [callersOf, hasParent, parent, further, induction above (Nat.lt_of_succ_lt_succ enough)]

/-- The depth of a function is its place on the stack, from the outermost on, and it
has a name. -/
theorem depth_eq {stack : List JsProfilerSymbol} (chain : CallChain jsSymbolMap stack) {place : Nat}
    (read : stack.reverse[place]? = some symbol) :
    symbol.depth = some (place : Int) ∧ symbol.name ≠ "" := by
  induction chain with
  | outermost named _ _ _ _ depth =>
    rcases List.getElem?_eq_some_iff.1 read with ⟨inside, rfl⟩
    simp only [reverse_singleton, length_singleton, Nat.lt_one_iff] at inside
    subst inside
    exact ⟨depth, named⟩
  | @inner last caller callers named _ _ _ _ depth _ induction =>
    rw [reverse_cons] at read
    by_cases above : place < (caller :: callers).reverse.length
    · rw [getElem?_append_left above] at read
      exact induction read
    · rw [getElem?_append_right (not_lt.1 above)] at read
      rcases List.getElem?_eq_some_iff.1 read with ⟨inside, rfl⟩
      have isLast : place = (caller :: callers).length := by
        simp only [length_reverse, length_singleton] at above inside
        omega
      simp [depth, isLast, named]

end CallChain

namespace CallNodeTable

variable (table : CallNodeTable) (dataDict : Nat → Option String)

def jsCallChain : List JsProfilerSymbol := table.root :: table.others

def jsSymbolMap : Nat → Option JsProfilerSymbol := createCallChain dataDict table.jsCallChain

/-- The map knows some nodes, and the stacks of all but the root. -/
structure Chained (nodes : List JsProfilerSymbol)
    (jsSymbolMap : Nat → Option JsProfilerSymbol) : Prop where
  known : ∀ id, id ∈ nodes.map JsProfilerSymbol.id ↔ ∃ symbol, jsSymbolMap id = some symbol
  chained : ∀ id symbol, jsSymbolMap id = some symbol → symbol.id = id ∧
    (symbol.id = rootId ∧ symbol.depth = some (-1) ∨
      ∃ callers, CallChain jsSymbolMap (symbol :: callers) ∧ callers.length < nodes.length)

/-- A node below a known one is added to the map. -/
theorem Chained.addToMap {nodes : List JsProfilerSymbol}
    {jsSymbolMap : Nat → Option JsProfilerSymbol}
    (chained : Chained nodes jsSymbolMap) {node : JsProfilerSymbol} (hasParent : node.parentId ≠ 0)
    (parent : node.parentId ∈ nodes.map JsProfilerSymbol.id)
    (fresh : node.id ∉ nodes.map JsProfilerSymbol.id) (notRoot : node.id ≠ rootId) :
    Chained (nodes ++ [node]) (addToMap dataDict jsSymbolMap node) := by
  have unknown : jsSymbolMap node.id = none := by
    rw [chained.known, not_exists] at fresh
    exact eq_none_iff_forall_ne_some.2 fresh
  rcases (chained.known _).1 parent with ⟨caller, isCaller⟩
  have other : node.parentId ≠ node.id := fun same => fresh (same ▸ parent)
  let added : JsProfilerSymbol :=
    { node with
      depth := caller.depth.map (· + 1)
      name := dictText dataDict node.nameId lambdaFunctionName
      url := dictText dataDict node.urlId "unknown" }
  have map_eq : JsProfilerSymbol.addToMap dataDict jsSymbolMap node =
    Function.update jsSymbolMap node.id (some added) := by
    unfold JsProfilerSymbol.addToMap
    dsimp only
    rw [if_pos (pos_of_ne_zero hasParent), update_of_ne other, isCaller]
    exact update_idem _ _ _
  have named : added.name ≠ "" := by
    show dictText dataDict node.nameId lambdaFunctionName ≠ ""
    unfold dictText
    cases read : (dataDict node.nameId).filter (· ≠ "") with
    | none => exact (by decide : lambdaFunctionName ≠ "")
    | some text => simpa using (filter_eq_some_iff.1 read).2
  rw [map_eq]
  rcases chained.chained _ _ isCaller with ⟨isParent, above⟩
  have callerKept : Function.update jsSymbolMap node.id (some added) node.parentId =
    some caller := by
    rw [update_of_ne other, isCaller]
  refine ⟨fun id => ?_, fun id symbol read => ?_⟩
  · by_cases same : id = node.id
    · subst same
      simp
    · rw [update_of_ne same, ← chained.known]
      simp [same]
  · by_cases same : id = node.id
    · subst same
      rw [update_self, some_inj] at read
      subst read
      refine ⟨rfl, .inr ?_⟩
      rcases above with ⟨isRoot, depth⟩ | ⟨callers, chain, short⟩
      · exact ⟨[], .outermost named hasParent notRoot callerKept isRoot
          (by simp [added, depth]), by simp⟩
      · have ofCaller : caller.depth = some (callers.length : Int) := by
          refine (chain.depth_eq ?_).1
          rw [reverse_cons, getElem?_append_right (by simp)]
          simp
        refine ⟨caller :: callers, .inner named hasParent notRoot callerKept isParent
          ?_ (chain.update unknown _), by simpa using short⟩
        simp [added, ofCaller]
    · rw [update_of_ne same] at read
      rcases chained.chained _ _ read with ⟨isId, isRoot | found⟩
      · exact ⟨isId, .inl isRoot⟩
      · rcases found with ⟨callers, chain, short⟩
        refine ⟨isId, .inr ⟨callers, chain.update unknown _, ?_⟩⟩
        rw [length_append]
        omega

theorem chained_jsSymbolMap : Chained table.jsCallChain (table.jsSymbolMap dataDict) := by
  have prefixes : ∀ before after, table.others = before ++ after → Chained (table.root :: before)
    (createCallChain dataDict (table.root :: before)) := by
    intro before
    induction before using reverseRecOn with
    | nil =>
      intro _ _
      have isRoot := table.root_id
      have map_eq : createCallChain dataDict [table.root] =
        Function.update (fun _ => none) table.root.id (some
          { table.root with
            depth := some (-1)
            name := dictText dataDict table.root.nameId lambdaFunctionName
            url := dictText dataDict table.root.urlId "unknown" }) := by
        simp [createCallChain, addToMap, table.root_parentId, isRoot]
      rw [map_eq]
      refine ⟨fun id => ?_, fun id symbol read => ?_⟩
      · by_cases same : id = table.root.id <;> simp [same]
      · by_cases same : id = table.root.id
        · subst same
          rw [update_self, some_inj] at read
          subst read
          exact ⟨rfl, .inl ⟨isRoot, rfl⟩⟩
        · rw [update_of_ne same] at read
          cases read
    | append_singleton before node induction =>
      intro after split
      rw [append_assoc, singleton_append] at split
      have distinct : ((table.root :: before).map JsProfilerSymbol.id ++
        node.id :: after.map JsProfilerSymbol.id).Nodup := by
        simpa [split] using table.distinct
      rw [nodup_middle, nodup_cons, mem_append, not_or] at distinct
      rw [← cons_append, createCallChain, foldl_append]
      refine (induction _ split).addToMap dataDict
        (table.parents _ _ _ split).1 (table.parents _ _ _ split).2
        distinct.1.1 fun isRoot => distinct.1.1 ?_
      rw [isRoot, ← table.root_id]
      exact mem_map_of_mem mem_cons_self
  exact prefixes _ [] (append_nil _).symm

end CallNodeTable

namespace JsCpuProfilerSample

variable {sample : JsCpuProfilerSample}

/-- A frame that goes on, with the time of the sample if it is the last. -/
def goOn (sample : JsCpuProfilerSample) (stack : List JsProfilerSymbol)
    (frame : ChartFrame) : ChartFrame :=
  { sample.prolong frame with
    selfTime := frame.selfTime + if stack.isEmpty then sample.dur else 0 }

/-- A stack goes down the last frames beside each other. -/
def addFrames (sample : JsCpuProfilerSample) :
    (idx : Nat) → (stack : List JsProfilerSymbol) → List ChartTree → List ChartTree
  | _, [], chart => chart
  | idx, symbol :: stack, chart =>
    match chart.getLast? with
    | some (.node last below) =>
      if sample.fits idx symbol last then
        chart.dropLast ++ [.node (sample.goOn stack last) (sample.addFrames (idx + 1) stack below)]
      else chart ++ [sample.newFrames symbol stack]
    | none => chart ++ [sample.newFrames symbol stack]

theorem combineBelow_prolong (stack : List JsProfilerSymbol) {depth : Nat}
    {frame : ChartFrame} (atDepth : frame.depth = some (depth : Int)) (children : List ChartTree) :
    sample.combineBelow (depth + 1) stack (sample.prolong frame) children =
      .node (sample.goOn stack frame) (sample.addFrames (depth + 1) stack children) := by
  induction stack generalizing depth frame children with
  | nil => rfl
  | cons symbol stack induction =>
    rw [combineBelow, addFrames]
    rcases children.getLast? with - | ⟨last, below⟩
    · have other : sample.fits (depth + 1) symbol (sample.prolong frame) = false := by
        simp [fits, prolong, atDepth]
      simp only [other, Bool.false_eq_true, if_false]
      rfl
    · by_cases fits : sample.fits (depth + 1) symbol last = true
      · have deeper : last.depth = some ((depth + 1 : Nat) : Int) := by
          simp only [JsCpuProfilerSample.fits, Bool.and_eq_true, decide_eq_true_eq] at fits
          exact fits.1.2
        simp only [fits, if_true, induction deeper]
        rfl
      · simp only [fits]
        rfl

theorem addStack_eq (symbol : JsProfilerSymbol) (stack : List JsProfilerSymbol)
    {chart : List ChartTree} (roots : ∀ tree ∈ chart, tree.data.depth = some 0) :
    sample.addStack symbol stack chart = some (sample.addFrames 0 (symbol :: stack) chart) := by
  rcases eq_nil_or_concat chart with rfl | ⟨others, ⟨last, below⟩, rfl⟩
  · rfl
  · have depth : last.depth = some 0 := roots (.node last below) (by simp)
    rw [addStack, addFrames, concat_eq_append, getLast?_concat]
    simp only [MergeTree.data_node, combineCallChain, fits, depth]
    by_cases goesOn : symbol.isSymbolEqual last = true ∧ last.endTime = sample.startTime
    · simp [goesOn, combineBelow_prolong stack depth]
    · rcases not_and_or.1 goesOn with other | other <;> simp [other]

end JsCpuProfilerSample

/-! ## Time -/

/-- What the outermost frames of a chart last. -/
def totalTimeOf (chart : List ChartTree) : Int := (chart.map fun tree => tree.data.totalTime).sum

def framesOf (chart : List ChartTree) : List ChartFrame := reachedAll (fun _ => true) chart

@[simp]
theorem framesOf_append (first second : List ChartTree) :
    framesOf (first ++ second) = framesOf first ++ framesOf second :=
  reachedAll_append _ _ _

@[simp]
theorem framesOf_singleton (frame : ChartFrame) (children : List ChartTree) :
    framesOf [.node frame children] = frame :: framesOf children := by
  simp [framesOf, reachedAll, reached]

def selfTimeOf (chart : List ChartTree) : Nat := ((framesOf chart).map ChartFrame.selfTime).sum

@[simp]
theorem selfTimeOf_append (first second : List ChartTree) :
    selfTimeOf (first ++ second) = selfTimeOf first + selfTimeOf second := by
  simp [selfTimeOf]

@[simp]
theorem selfTimeOf_singleton (frame : ChartFrame) (children : List ChartTree) :
    selfTimeOf [.node frame children] = frame.selfTime + selfTimeOf children := by
  simp [selfTimeOf]

/-- The children of a frame share its time: they lie inside it one after the other,
and what is left is its own. -/
inductive Conserves : ChartTree → Prop
  | node {frame : ChartFrame} {children : List ChartTree}
    (begins : frame.startTime ≤ frame.endTime)
    (lasts : frame.totalTime = frame.endTime - frame.startTime)
    (shared : frame.totalTime = frame.selfTime + totalTimeOf children)
    (inside : ∀ child ∈ children, frame.startTime ≤ child.data.startTime ∧
      child.data.endTime ≤ frame.endTime)
    (disjoint : children.Pairwise fun first second => first.data.endTime ≤ second.data.startTime)
    (below : ∀ child ∈ children, Conserves child) :
    Conserves (.node frame children)

theorem Conserves.concat {frame : ChartFrame} {others : List ChartTree} {child : ChartTree}
    (lasts : frame.totalTime = frame.endTime - frame.startTime)
    (inside : ∀ other ∈ others, frame.startTime ≤ other.data.startTime ∧
      other.data.endTime ≤ child.data.startTime) (disjoint : others.Pairwise fun first second =>
      first.data.endTime ≤ second.data.startTime)
    (below : ∀ other ∈ others, Conserves other) (conserves : Conserves child)
    (childInside : frame.startTime ≤ child.data.startTime ∧ child.data.endTime = frame.endTime)
    (shared : frame.totalTime = frame.selfTime + (totalTimeOf others + child.data.totalTime)) :
    Conserves (.node frame (others ++ [child])) := by
  have order : child.data.startTime ≤ child.data.endTime := by
    cases conserves with
    | node begins => exact begins
  refine .node (by omega) lasts ?_ ?_ ?_ ?_
  · simpa [totalTimeOf] using shared
  · rw [forall_mem_append, forall_mem_singleton]
    refine ⟨fun other member => ?_, childInside.1, childInside.2.le⟩
    have ofOther := inside other member
    omega
  · rw [pairwise_append]
    refine ⟨disjoint, pairwise_singleton _ _, ?_⟩
    intro other member last isLast
    rw [mem_singleton.1 isLast]
    exact (inside other member).2
  · rw [forall_mem_append, forall_mem_singleton]
    exact ⟨below, conserves⟩

namespace JsCpuProfilerSample

variable {sample : JsCpuProfilerSample}
  (timed : (sample.dur : Int) = sample.endTime - sample.startTime)
include timed

theorem conserves_newFrames (symbol : JsProfilerSymbol) (stack : List JsProfilerSymbol) :
    Conserves (sample.newFrames symbol stack) ∧ (∃ selfTime, (sample.newFrames symbol stack).data =
      { sample.symbolToChartFrame symbol with selfTime := selfTime }) ∧
      selfTimeOf [sample.newFrames symbol stack] = sample.dur := by
  have lasts : sample.startTime ≤ sample.endTime := by omega
  induction stack generalizing symbol with
  | nil =>
    refine ⟨?_, ⟨sample.dur, rfl⟩, selfTimeOf_singleton _ _⟩
    constructor <;> simp [symbolToChartFrame, totalTimeOf, timed, lasts]
  | cons next stack induction =>
    rcases induction next with ⟨below, ⟨selfTime, data⟩, time⟩
    refine ⟨?_, ⟨0, rfl⟩, ?_⟩
    · refine Conserves.concat timed (by simp) .nil (by simp) below ?_ ?_
      · simp [data, symbolToChartFrame]
      · simp [data, symbolToChartFrame, totalTimeOf]
    · rw [newFrames, selfTimeOf_singleton, time]
      exact zero_add _

/-- A frame that goes on with a sample still covers its children and own time. -/
theorem conserves_goOn (stack : List JsProfilerSymbol) (idx : Nat)
    {frame : ChartFrame} {children : List ChartTree} (conserves : Conserves (.node frame children))
    (ends : frame.endTime = sample.startTime) :
    Conserves (.node (sample.goOn stack frame) (sample.addFrames idx stack children)) ∧
      (sample.goOn stack frame).selfTime + selfTimeOf (sample.addFrames idx stack children) =
        frame.selfTime + selfTimeOf children + sample.dur := by
  induction stack generalizing idx frame children with
  | nil =>
    cases conserves with
    | node begins lasts shared inside disjoint below =>
      refine ⟨.node ?_ rfl ?_ ?_ disjoint below, add_right_comm _ _ _⟩
      · simp only [goOn, prolong]
        omega
      · simp only [goOn, prolong, addFrames, isEmpty_nil, if_true]
        push_cast
        omega
      · intro child member
        have ofChild := inside child member
        simp only [goOn, prolong]
        omega
  | cons symbol stack induction =>
    cases conserves with
    | node begins lasts shared inside disjoint below =>
      have new : Conserves (.node (sample.goOn (symbol :: stack) frame)
        (children ++ [sample.newFrames symbol stack])) ∧
        (sample.goOn (symbol :: stack) frame).selfTime +
          selfTimeOf (children ++ [sample.newFrames symbol stack]) =
          frame.selfTime + selfTimeOf children + sample.dur := by
        rcases conserves_newFrames timed symbol stack with
          ⟨new, ⟨own, data⟩, time⟩
        refine ⟨Conserves.concat rfl ?_ disjoint below new ?_ ?_, ?_⟩
        · rw [data]
          simpa [goOn, prolong, symbolToChartFrame, ← ends] using inside
        · rw [data]
          simpa [goOn, prolong, symbolToChartFrame, ← ends] using begins
        · rw [data]
          simp only [goOn, prolong, symbolToChartFrame, isEmpty_cons, Bool.false_eq_true, if_false]
          push_cast
          omega
        · rw [selfTimeOf_append, time]
          exact (add_assoc _ _ _).symm
      rw [addFrames]
      rcases eq_nil_or_concat children with rfl | ⟨others, ⟨last, under⟩, rfl⟩
      · exact new
      · rw [concat_eq_append] at *
        rw [getLast?_concat]
        by_cases fits : sample.fits idx symbol last = true
        · have ends' : last.endTime = sample.startTime := by
            simp only [JsCpuProfilerSample.fits, Bool.and_eq_true, decide_eq_true_eq] at fits
            exact fits.2
          rw [forall_mem_append, forall_mem_singleton] at inside below
          rw [pairwise_append] at disjoint
          rcases induction (idx + 1) below.2 ends' with ⟨child, time⟩
          simp only [fits, if_true, dropLast_concat]
          refine ⟨Conserves.concat rfl (fun other member => ?_) disjoint.1
            below.1 child ⟨inside.2.1, rfl⟩ ?_, ?_⟩
          · exact ⟨(inside.1 other member).1,
              disjoint.2.2 other member (.node last under) mem_cons_self⟩
          · cases below.2 with
            | node _ lastLasts =>
              simp only [totalTimeOf, map_append, sum_append,
                map_singleton, sum_singleton, MergeTree.data_node] at *
              simp only [goOn, prolong, isEmpty_cons, Bool.false_eq_true, if_false]
              push_cast
              omega
          · rw [selfTimeOf_append, selfTimeOf_singleton, time,
              selfTimeOf_append, selfTimeOf_singleton]
            simp only [goOn, prolong, isEmpty_cons, Bool.false_eq_true, if_false]
            ring
        · simp only [fits]
          exact new

theorem conserves_addFrames {symbol : JsProfilerSymbol}
    {stack : List JsProfilerSymbol} {chart : List ChartTree}
    (conserves : ∀ tree ∈ chart, Conserves tree) (idx : Nat) :
    (∀ tree ∈ sample.addFrames idx (symbol :: stack) chart, Conserves tree) ∧
      selfTimeOf (sample.addFrames idx (symbol :: stack) chart) =
        selfTimeOf chart + sample.dur := by
  rcases conserves_newFrames timed symbol stack with ⟨new, -, time⟩
  rw [addFrames]
  rcases eq_nil_or_concat chart with rfl | ⟨others, ⟨last, below⟩, rfl⟩
  · exact ⟨by simpa using new, time.trans (zero_add _).symm⟩
  · rw [concat_eq_append] at *
    rw [getLast?_concat]
    by_cases fits : sample.fits idx symbol last = true
    · have ends : last.endTime = sample.startTime := by
        simp only [JsCpuProfilerSample.fits, Bool.and_eq_true, decide_eq_true_eq] at fits
        exact fits.2
      rw [forall_mem_append, forall_mem_singleton] at conserves
      rcases conserves_goOn timed stack (idx + 1) conserves.2 ends with
        ⟨tree, time⟩
      simp only [fits, if_true, dropLast_concat]
      refine ⟨?_, ?_⟩
      · rw [forall_mem_append, forall_mem_singleton]
        exact ⟨conserves.1, tree⟩
      · rw [selfTimeOf_append, selfTimeOf_singleton, time, selfTimeOf_append,
          selfTimeOf_singleton, ← add_assoc]
    · simp only [fits]
      refine ⟨?_, by rw [if_neg (by simp), selfTimeOf_append, time]⟩
      rw [if_neg (by simp), forall_mem_append, forall_mem_singleton]
      exact ⟨conserves, new⟩

end JsCpuProfilerSample

open JsCpuProfilerSample

namespace CallNodeTable

variable (table : CallNodeTable) (dataDict : Nat → Option String)

def stackOf (sample : JsCpuProfilerSample) : List JsProfilerSymbol :=
  sample.stack (table.jsSymbolMap dataDict) table.jsCallChain.length

theorem stackOf_cases (sample : JsCpuProfilerSample) :
    let jsSymbolMap := table.jsSymbolMap dataDict
    let add := fun chart => sample.addToChart jsSymbolMap table.jsCallChain.length chart
    sample.isShown jsSymbolMap = false ∧ table.stackOf dataDict sample = [] ∧
      (∀ chart, add chart = some chart) ∨ sample.isShown jsSymbolMap = true ∧
      ∃ symbol callers, CallChain jsSymbolMap (symbol :: callers) ∧
        table.stackOf dataDict sample = (symbol :: callers).reverse ∧
        ∀ chart first rest, table.stackOf dataDict sample = first :: rest →
          add chart = sample.addStack first rest chart := by
  have chained := table.chained_jsSymbolMap dataDict
  unfold stackOf stack isShown addToChart
  dsimp only
  cases read : table.jsSymbolMap dataDict sample.functionId with
  | none => exact .inl ⟨rfl, rfl, fun _ => rfl⟩
  | some top =>
    rcases (chained.chained _ _ read).2 with ⟨isRoot, -⟩ | ⟨callers, chain, short⟩
    · exact .inl (by simp [isRoot])
    · have notRoot : top.id ≠ rootId := by
        cases chain <;> assumption
      simp only [notRoot, if_false, getFullCallChainOfNode,
        chain.callersOf_eq short, map_some, getD_some]
      refine .inr ⟨by simp [notRoot], top, callers, chain, rfl, ?_⟩
      intro chart first rest split
      rw [split]

theorem depth_of_stackOf {sample : JsCpuProfilerSample} {place : Nat} {symbol : JsProfilerSymbol}
    (read : (table.stackOf dataDict sample)[place]? = some symbol) :
    symbol.depth = some (place : Int) ∧ symbol.name ≠ "" := by
  rcases table.stackOf_cases dataDict sample with
    ⟨-, none, -⟩ | ⟨-, top, callers, chain, stack, -⟩
  · simp [none] at read
  · exact chain.depth_eq (stack ▸ read)

def chartOf (samples : List JsCpuProfilerSample) : List ChartTree :=
  samples.foldl (fun chart sample => sample.addFrames 0 (table.stackOf dataDict sample) chart) []

theorem chartOf_concat (samples : List JsCpuProfilerSample) (sample : JsCpuProfilerSample) :
    table.chartOf dataDict (samples ++ [sample]) =
      sample.addFrames 0 (table.stackOf dataDict sample) (table.chartOf dataDict samples) := by
  simp [chartOf]

theorem depth_chartOf (samples : List JsCpuProfilerSample) :
    ∀ tree ∈ table.chartOf dataDict samples, tree.data.depth = some 0 := by
  induction samples using reverseRecOn with
  | nil => simp [chartOf]
  | append_singleton samples sample induction =>
    rw [chartOf_concat]
    have depth := fun symbol => @depth_of_stackOf table dataDict sample 0 symbol
    cases stack : table.stackOf dataDict sample with
    | nil => exact induction
    | cons symbol stack' =>
      have new : (sample.newFrames symbol stack').data.depth = some 0 := by
        have isZero := (depth symbol (by simp [stack])).1
        cases stack' <;> exact isZero
      rw [addFrames]
      rcases eq_nil_or_concat (table.chartOf dataDict samples) with
        none | ⟨others, ⟨last, below⟩, split⟩
      · simp [none, new]
      · rw [split, concat_eq_append] at induction ⊢
        rw [getLast?_concat]
        dsimp only
        split_ifs
        · rw [forall_mem_append, forall_mem_singleton] at induction
          rw [dropLast_concat, forall_mem_append, forall_mem_singleton]
          exact induction
        · rw [forall_mem_append, forall_mem_singleton]
          exact ⟨induction, new⟩

theorem combineChartData_eq (samples : List JsCpuProfilerSample) :
    combineChartData (table.jsSymbolMap dataDict) table.jsCallChain.length samples =
      some (table.chartOf dataDict samples) := by
  induction samples using reverseRecOn with
  | nil => rfl
  | append_singleton samples sample induction =>
    have roots := table.depth_chartOf dataDict samples
    rw [combineChartData, foldlM_append, ← combineChartData, induction, chartOf_concat]
    have step : addToChart (table.jsSymbolMap dataDict) table.jsCallChain.length
      (table.chartOf dataDict samples) sample =
        some (sample.addFrames 0 (table.stackOf dataDict sample)
          (table.chartOf dataDict samples)) := by
      rcases table.stackOf_cases dataDict sample with
        ⟨-, none, left⟩ | ⟨-, top, callers, -, stack, added⟩
      · rw [none]
        exact left _
      · rcases exists_cons_of_ne_nil (by simp : (top :: callers).reverse ≠ [])
          with ⟨first, rest, split⟩
        rw [split] at stack
        refine (added _ _ _ stack).trans ?_
        rw [addStack_eq _ _ roots, stack]
    simpa using step

structure ChartExact (samples : List JsCpuProfilerSample) (chart : List ChartTree) :
    Prop where
  conserves : ∀ tree ∈ chart, Conserves tree
  selfTime : selfTimeOf chart = ((samples.filter (isShown (table.jsSymbolMap dataDict))).map
    JsCpuProfilerSample.dur).sum

end CallNodeTable

structure TimedSamples where
  samples : List JsCpuProfilerSample
  timed : ∀ sample ∈ samples, (sample.dur : Int) = sample.endTime - sample.startTime

/--
The chart holds the sampled time: every frame covers its children and its own
time, and the own times together are the durations of the samples shown.
-/
theorem combineChartData_exact (table : CallNodeTable)
    (dataDict : Nat → Option String) (samples : TimedSamples) :
    ∃ chart, combineChartData (table.jsSymbolMap dataDict) table.jsCallChain.length
      samples.samples = some chart ∧ table.ChartExact dataDict samples.samples chart := by
  refine ⟨_, table.combineChartData_eq dataDict samples.samples, ?_⟩
  rcases samples with ⟨samples, timed⟩
  dsimp only
  induction samples using reverseRecOn with
  | nil => exact ⟨by simp [CallNodeTable.chartOf], rfl⟩
  | append_singleton samples sample induction =>
    rw [forall_mem_append, forall_mem_singleton] at timed
    have earlier := induction timed.1
    rw [table.chartOf_concat]
    rcases table.stackOf_cases dataDict sample with
      ⟨hidden, none, -⟩ | ⟨shown, top, callers, -, stack, -⟩
    · rw [none]
      refine ⟨earlier.conserves, ?_⟩
      rw [filter_append, filter_singleton, hidden]
      simpa [addFrames] using earlier.selfTime
    · have some : (top :: callers).reverse ≠ [] := by simp
      rcases exists_cons_of_ne_nil some with ⟨symbol, rest, split⟩
      rw [stack, split]
      rcases @conserves_addFrames _ timed.2 symbol rest _ earlier.conserves 0
        with ⟨conserves, time⟩
      refine ⟨conserves, ?_⟩
      rw [time, earlier.selfTime, filter_append, filter_singleton, shown]
      simp

namespace CallNodeTable

/-- A root with two anonymous functions of one file below it. -/
def twoLambdas : CallNodeTable where
  root := ⟨1, 0, 0, 0, 0, 0, "", "", none⟩
  others := [⟨2, 0, 0, 1, 1, 1, "", "", none⟩, ⟨3, 0, 0, 2, 1, 1, "", "", none⟩]
  root_id := rfl
  root_parentId := rfl
  distinct := by decide
  parents := by
    intro before node after split
    rcases before with - | ⟨first, - | ⟨second, - | ⟨third, before⟩⟩⟩ <;> simp_all [eq_comm]

def adjacentSamples : List JsCpuProfilerSample := [⟨0, 2, 0, 1, 1⟩, ⟨1, 3, 1, 2, 1⟩]

end CallNodeTable

theorem combineChartData_exact_adjacentSamples :
    ∃ chart, combineChartData (CallNodeTable.twoLambdas.jsSymbolMap fun _ => none) 3
      CallNodeTable.adjacentSamples = some chart ∧ selfTimeOf chart = 2 := by
  rcases combineChartData_exact CallNodeTable.twoLambdas (fun _ => none)
    ⟨CallNodeTable.adjacentSamples, by decide⟩ with ⟨chart, built, exact⟩
  refine ⟨chart, built, exact.selfTime.trans ?_⟩
  decide

end SysAnalyzer.LogicWorker
