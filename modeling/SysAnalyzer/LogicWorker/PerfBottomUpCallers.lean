import SysAnalyzer.LogicWorker.PerfBottomUpTrie

/-!
# Callers in the bottom-up view

The nodes with time of their own are the chains of the samples, each of them
once.  The first of a function keeps its callers, and takes the times of the
others without theirs.  So the view is complete just where the longer chains of
each function are one chain, and it is the first of the function.
-/

namespace SysAnalyzer.LogicWorker

open Foundation List
open PerfBottomUpTime

mutual

theorem recursionTree_eq (callers : List String) : ∀ tree : TopUpTree, recursionTree callers tree =
    ((preorder symbolName callers tree).filter fun entry =>
      0 < entry.2.selfTime).map fun entry => clonePerfBottomUpStruct entry.2 entry.1.tail
  | .node time children => by
    rw [recursionTree, preorder, filter_cons,
      recursionTrees_eq (time.symbolName :: callers) children]
    by_cases positive : 0 < time.selfTime
    · simp [positive]
    · simp [positive]

theorem recursionTrees_eq (callers : List String) :
    ∀ trees : List TopUpTree, recursionTrees callers trees =
      ((preorderAll symbolName callers trees).filter fun entry =>
        0 < entry.2.selfTime).map fun entry => clonePerfBottomUpStruct entry.2 entry.1.tail
  | [] => rfl
  | tree :: trees => by
    rw [recursionTrees, preorderAll, filter_append, map_append,
      recursionTree_eq callers tree, recursionTrees_eq callers trees]

end

theorem selfTime_callerAt_of_children {tree : PerfBottomUpStruct}
    {time : PerfBottomUpTime} {callers : List String}
    (chain : tree.children = copyParentNode time callers)
    {wanted : List String} (nonempty : wanted ≠ []) :
    ((tree.callerAt wanted).map PerfBottomUpStruct.selfTime).getD 0 =
      if wanted <+: callers then time.selfTime else 0 := by
  induction callers generalizing tree wanted with
  | nil =>
    cases wanted with
    | nil => exact absurd rfl nonempty
    | cons caller rest =>
      rw [PerfBottomUpStruct.callerAt, chain]
      simp [copyParentNode]
  | cons first callers induction =>
    cases wanted with
    | nil => exact absurd rfl nonempty
    | cons caller rest =>
      rw [PerfBottomUpStruct.callerAt, chain, copyParentNode]
      by_cases isFirst : first = caller
      · cases rest with
        | nil =>
          simp [PerfBottomUpStruct.symbolName, isFirst,
            PerfBottomUpStruct.callerAt, PerfBottomUpStruct.selfTime]
        | cons next rest =>
          have below := @induction (.node { time with symbolName := first }
            (copyParentNode time callers) none)
            rfl (next :: rest) (cons_ne_nil next rest)
          simpa [PerfBottomUpStruct.symbolName, isFirst] using below
      · simp [PerfBottomUpStruct.symbolName, isFirst, Ne.symm isFirst]

theorem sum_children_callerAt_le {tree node : PerfBottomUpStruct}
    {time : PerfBottomUpTime} {callers wanted : List String}
    (chain : tree.children = copyParentNode time callers) (enough : time.selfTime ≤ tree.selfTime)
    (reached : tree.callerAt wanted = some node) :
    (node.children.map PerfBottomUpStruct.selfTime).sum ≤ node.selfTime := by
  induction callers generalizing tree wanted with
  | nil =>
    cases wanted with
    | nil =>
      cases reached
      simp [chain, copyParentNode]
    | cons caller rest =>
      rw [PerfBottomUpStruct.callerAt, chain] at reached
      cases reached
  | cons first callers induction =>
    cases wanted with
    | nil =>
      cases reached
      simpa [chain, copyParentNode, PerfBottomUpStruct.selfTime] using enough
    | cons caller rest =>
      rw [PerfBottomUpStruct.callerAt, chain, copyParentNode] at reached
      by_cases isFirst : first = caller
      · simp only [PerfBottomUpStruct.symbolName, isFirst,
          PerfBottomUpStruct.time_node, decide_true, find?_cons_of_pos]
          at reached
        exact induction rfl le_rfl reached
      · simp [PerfBottomUpStruct.symbolName, isFirst] at reached

/-- The first node of a function takes the times of the others, and keeps its own
callers. -/
theorem gather_mergeSymbol (first : PerfBottomUpStruct)
    (rest : List PerfBottomUpStruct) (noFrames : first.frameChildren = none) :
    ∃ time, gather mergeSymbol (first :: rest) = some (.node time first.children none) ∧
      time.symbolName = first.symbolName ∧
      time.selfTime = ((first :: rest).map PerfBottomUpStruct.selfTime).sum := by
  induction rest using reverseRecOn with
  | nil =>
    refine ⟨first.time, ?_, rfl, by simp [PerfBottomUpStruct.selfTime]⟩
    simp [gather, mergeSymbol, noFrames]
  | append_singleton rest item induction =>
    rcases induction with ⟨time, gathered, sameName, total⟩
    rw [← cons_append, gather_concat, gathered]
    refine ⟨_, rfl, sameName, ?_⟩
    rw [map_append, sum_append, ← total]
    simp [PerfBottomUpStruct.selfTime]

theorem mapM_mergeFrameChildren (levels : Nat) {nodes : List PerfBottomUpStruct}
    (noFrames : ∀ node ∈ nodes, node.frameChildren = none) :
    nodes.mapM (mergeFrameChildren levels) =
      some (nodes.map fun node => .node node.time node.children (some [])) := by
  induction nodes with
  | nil => rfl
  | cons node nodes induction =>
    rw [forall_mem_cons] at noFrames
    have later := induction noFrames.2
    have none := noFrames.1
    cases node with
    | node time children frameChildren =>
      cases none
      have here : mergeFrameChildren levels (.node time children none) =
        some (.node time children (some [])) := by
        cases levels <;> rfl
      rw [mapM_cons, here, later]
      rfl

namespace PerfWorker

variable {worker : PerfWorker} {perfTime : Nat}

theorem timeOf_cons (sample : PerfCountSample) (samples : List PerfCountSample)
    (property : PerfCountSample → Bool) : timeOf perfTime (sample :: samples) property =
      (if property sample then perfTime * sample.count else 0) +
        timeOf perfTime samples property := by
  unfold timeOf
  cases isKept : property sample <;> simp [isKept]

variable {samples : List PerfCountSample} {property : PerfCountSample → Bool}

theorem timeOf_congr {other : PerfCountSample → Bool}
    (same : ∀ sample ∈ samples, property sample = other sample) :
    timeOf perfTime samples property = timeOf perfTime samples other := by
  unfold timeOf
  rw [filter_congr same]

theorem timeOf_eq_zero (none : ∀ sample ∈ samples, property sample = false) :
    timeOf perfTime samples property = 0 := by
  have empty : samples.filter property = [] := by simpa [filter_eq_nil_iff] using none
  rw [timeOf, empty]
  rfl

theorem timeOf_pos (positive : ∀ sample ∈ samples, 0 < perfTime * sample.count)
    {sample : PerfCountSample} (member : sample ∈ samples) (isCounted : property sample = true) :
    0 < timeOf perfTime samples property := by
  have counted : perfTime * sample.count ≤ timeOf perfTime samples property :=
    le_sum_of_mem (mem_map_of_mem (mem_filter.2 ⟨member, isCounted⟩))
  exact lt_of_lt_of_le (positive sample member) counted

theorem imp_of_timeOf_eq {other : PerfCountSample → Bool}
    (positive : ∀ sample ∈ samples, 0 < perfTime * sample.count)
    (fewer : ∀ sample ∈ samples, property sample = true → other sample = true)
    (sameTime : timeOf perfTime samples other ≤ timeOf perfTime samples property) :
    ∀ sample ∈ samples, other sample = true → property sample = true := by
  have differ : timeOf perfTime samples other =
    timeOf perfTime samples property + timeOf perfTime samples fun sample =>
      other sample && !property sample := by
    clear sameTime positive
    induction samples with
    | nil => rfl
    | cons sample samples induction =>
      rw [forall_mem_cons] at fewer
      rw [timeOf_cons, timeOf_cons, timeOf_cons, induction fewer.2]
      have first := fewer.1
      generalize perfTime * sample.count = time
      cases isKept : property sample with
      | true =>
        rw [first isKept]
        simp only [if_true, Bool.not_true, Bool.and_false, Bool.false_eq_true, if_false]
        omega
      | false =>
        simp only [Bool.false_eq_true, if_false, Bool.not_false, Bool.and_true]
        omega
  intro sample member isOther
  by_contra isNot
  have isLess : 0 < timeOf perfTime samples fun sample =>
    other sample && !property sample :=
    timeOf_pos positive member (by simp [isOther, isNot])
  omega

/-! ## Nodes with time of their own -/

def innerFrames (worker : PerfWorker) (sample : PerfCountSample) : List String :=
  (worker.frameNames sample).reverse

def ownNodes (worker : PerfWorker) (perfTime : Nat)
    (samples : List PerfCountSample) : List (List String × PerfBottomUpTime) :=
  (preorderAll symbolName [] (worker.topUp perfTime samples)).filter
    fun entry => 0 < entry.2.selfTime

variable {place : List String} {time : PerfBottomUpTime}

theorem selfTime_of_mem_preorderAll (member : (place, time) ∈
    preorderAll symbolName [] (worker.topUp perfTime samples)) :
    time.selfTime = timeOf perfTime samples fun sample =>
      worker.innerFrames sample = place := by
  rcases exists_callTrie worker perfTime samples with ⟨tree, trie⟩
  rw [← trie.children, mem_preorderAll_children_iff trie.keyed] at member
  rcases member with ⟨_, node, reached, rfl⟩
  have own := trie.own place.reverse
  rw [numberAt, reached] at own
  refine own.trans (timeOf_congr fun sample _ => ?_)
  rw [decide_eq_decide, innerFrames, reverse_eq_iff, eq_comm]

theorem exists_mem_ownNodes (hasChains :
    ∀ sample ∈ samples, worker.callChainData sample.sampleId ≠ [])
    (positive : ∀ sample ∈ samples, 0 < perfTime * sample.count)
    {sample : PerfCountSample} (member : sample ∈ samples) :
    ∃ time, (worker.innerFrames sample, time) ∈ worker.ownNodes perfTime samples := by
  rcases exists_callTrie worker perfTime samples with ⟨tree, trie⟩
  have own := trie.own (worker.frameNames sample)
  have isPositive : 0 < timeOf perfTime samples fun other =>
    decide (worker.frameNames sample = worker.frameNames other) :=
    timeOf_pos positive member (by simp)
  cases reached : nodeAt symbolName (worker.frameNames sample) tree with
  | none =>
    rw [numberAt, reached] at own
    rw [← own] at isPositive
    cases isPositive
  | some node =>
    rw [numberAt, reached] at own
    refine ⟨node.data, mem_filter.2 ⟨?_, ?_⟩⟩
    · rw [← trie.children, mem_preorderAll_children_iff trie.keyed]
      refine ⟨?_, node, ?_, rfl⟩
      · simpa [innerFrames, frameNames] using hasChains sample member
      · rw [innerFrames, reverse_reverse]
        exact reached
    · rw [← own] at isPositive
      exact decide_eq_true isPositive

theorem nodup_places (worker : PerfWorker) (perfTime : Nat) (samples : List PerfCountSample) :
    ((preorderAll symbolName [] (worker.topUp perfTime samples)).map Prod.fst).Nodup := by
  rcases exists_callTrie worker perfTime samples with ⟨tree, trie⟩
  rw [← trie.children]
  exact nodup_preorderAll trie.keyed []

theorem exists_sample_of_mem_ownNodes (member : (place, time) ∈ worker.ownNodes perfTime samples) :
    ∃ sample ∈ samples, worker.innerFrames sample = place := by
  rw [ownNodes, mem_filter, decide_eq_true_iff] at member
  have own := selfTime_of_mem_preorderAll member.1
  by_contra none
  rw [timeOf_eq_zero (by simpa using none)] at own
  exact absurd own (Nat.pos_iff_ne_zero.1 member.2)

theorem nodup_ownNodes (worker : PerfWorker) (perfTime : Nat) (samples : List PerfCountSample) :
    ((worker.ownNodes perfTime samples).map Prod.fst).Nodup :=
  (nodup_places worker perfTime samples).sublist (filter_sublist.map _)

/-- The nodes of a function. -/
def ofSymbol (worker : PerfWorker) (perfTime : Nat)
    (samples : List PerfCountSample) (function : String) : List (List String × PerfBottomUpTime) :=
  (worker.ownNodes perfTime samples).filter fun entry => entry.2.symbolName = function

theorem symbolName_iff_of_mem (member : (place, time) ∈ worker.ownNodes perfTime samples)
    (function : String) : time.symbolName = function ↔ place.head? = some function := by
  rw [head?_of_mem_preorderAll (mem_of_mem_filter member), Option.some_inj]

theorem sum_timeOf {places : List (List String)} (distinct : places.Nodup) :
    (places.map fun place =>
      timeOf perfTime samples fun sample =>
        worker.innerFrames sample = place).sum = timeOf perfTime samples fun sample =>
      worker.innerFrames sample ∈ places := by
  induction samples with
  | nil =>
    have none : ∀ property, timeOf perfTime [] property = 0 := fun _ => rfl
    simp [none]
  | cons sample samples induction =>
    simp only [timeOf_cons, sum_map_add, induction, decide_eq_true_iff]
    congr 1
    clear induction
    induction places with
    | nil => rfl
    | cons place places induction =>
      rw [nodup_cons] at distinct
      rw [map_cons, sum_cons, induction distinct.2]
      by_cases here : worker.innerFrames sample = place
      · simp [here, distinct.1]
      · simp [here]

theorem sum_ofSymbol (hasChains : ∀ sample ∈ samples, worker.callChainData sample.sampleId ≠ [])
    (positive : ∀ sample ∈ samples, 0 < perfTime * sample.count) (function : String) :
    ((worker.ofSymbol perfTime samples function).map fun entry =>
      entry.2.selfTime).sum = timeOf perfTime samples fun sample =>
      (worker.innerFrames sample).head? = some function := by
  have distinct : ((worker.ofSymbol perfTime samples function).map Prod.fst).Nodup :=
    (nodup_ownNodes worker perfTime samples).sublist (filter_sublist.map _)
  have times : (worker.ofSymbol perfTime samples function).map (fun entry => entry.2.selfTime) =
    ((worker.ofSymbol perfTime samples function).map Prod.fst).map fun place =>
      timeOf perfTime samples fun sample =>
        worker.innerFrames sample = place := by
    rw [map_map]
    refine map_congr_left ?_
    rintro ⟨place, time⟩ member
    exact selfTime_of_mem_preorderAll (mem_of_mem_filter (mem_of_mem_filter member))
  rw [times, sum_timeOf distinct]
  refine timeOf_congr fun sample isSample => ?_
  rw [decide_eq_decide, mem_map]
  constructor
  · rintro ⟨⟨place, time⟩, member, isPlace⟩
    rw [ofSymbol, mem_filter, decide_eq_true_iff] at member
    rw [← isPlace]
    exact (symbolName_iff_of_mem member.1 function).1 member.2
  · intro isInnermost
    rcases exists_mem_ownNodes hasChains positive isSample with ⟨time, member⟩
    refine ⟨_, mem_filter.2 ⟨member, ?_⟩, rfl⟩
    exact decide_eq_true ((symbolName_iff_of_mem member function).2 isInnermost)

def functionNodes (worker : PerfWorker) (perfTime : Nat)
    (samples : List PerfCountSample) : List (String × PerfBottomUpStruct) :=
  group PerfBottomUpStruct.symbolName mergeSymbol
    (recursionTrees [] (worker.topUp perfTime samples))

variable {function : String}

theorem mem_functionNodes {top : PerfBottomUpStruct}
    (member : (function, top) ∈ worker.functionNodes perfTime samples) :
    ∃ first rest, worker.ofSymbol perfTime samples function = first :: rest ∧
      top.frameChildren = none ∧ top.children = copyParentNode first.2 first.1.tail ∧
      top.symbolName = function ∧
      top.selfTime = ((first :: rest).map fun entry => entry.2.selfTime).sum := by
  rw [functionNodes, mem_group_iff, recursionTrees_eq, ← ownNodes, filter_map] at member
  have sameNodes : (worker.ownNodes perfTime samples).filter
    ((fun node => decide (PerfBottomUpStruct.symbolName node = function)) ∘
      fun entry => clonePerfBottomUpStruct entry.2 entry.1.tail) =
    worker.ofSymbol perfTime samples function := rfl
  rw [sameNodes] at member
  cases nodes : worker.ofSymbol perfTime samples function with
  | nil =>
    rw [nodes] at member
    cases member
  | cons first rest =>
    rw [nodes, map_cons] at member
    have isFirst : first ∈ worker.ofSymbol perfTime samples function := by simp [nodes]
    rw [ofSymbol, mem_filter, decide_eq_true_iff] at isFirst
    rcases gather_mergeSymbol (clonePerfBottomUpStruct first.2 first.1.tail) (rest.map fun entry =>
      clonePerfBottomUpStruct entry.2 entry.1.tail) rfl with
      ⟨time, gathered, sameName, total⟩
    rw [gathered] at member
    cases member
    refine ⟨first, rest, rfl, rfl, rfl, sameName.trans isFirst.2, ?_⟩
    refine total.trans ?_
    rw [map_cons, map_map]
    rfl

theorem getBottomUp_eq (levels : Nat) (samples : List PerfCountSample) :
    worker.getBottomUp perfTime levels samples =
      some ((worker.functionNodes perfTime samples).map fun entry =>
        .node entry.2.time entry.2.children (some [])) := by
  unfold getBottomUp mergeTreeBifurcation currentLevelData
  rw [← functionNodes, mapM_mergeFrameChildren, map_map]
  · rfl
  · intro node member
    rcases mem_map.1 member with ⟨⟨function, top⟩, entry, rfl⟩
    rcases mem_functionNodes entry with ⟨_, _, _, noFrames, _⟩
    exact noFrames

theorem mem_functionNodes_iff (hasChains :
    ∀ sample ∈ samples, worker.callChainData sample.sampleId ≠ [])
    (positive : ∀ sample ∈ samples, 0 < perfTime * sample.count) (function : String) :
    function ∈ (worker.functionNodes perfTime samples).map Prod.fst ↔ ∃ sample ∈ samples,
      (worker.innerFrames sample).head? = some function := by
  rw [functionNodes, mem_keys_group, recursionTrees_eq, ← ownNodes]
  constructor
  · rintro ⟨node, member, isFunction⟩
    rcases mem_map.1 member with ⟨⟨place, time⟩, ofOwn, rfl⟩
    rcases exists_sample_of_mem_ownNodes ofOwn with ⟨sample, isSample, chain⟩
    refine ⟨sample, isSample, ?_⟩
    rw [chain]
    exact (symbolName_iff_of_mem ofOwn function).1 isFunction
  · rintro ⟨sample, isSample, isInnermost⟩
    rcases exists_mem_ownNodes hasChains positive isSample with ⟨time, ofOwn⟩
    exact ⟨_, mem_map_of_mem ofOwn, (symbolName_iff_of_mem ofOwn function).2 isInnermost⟩

/-- A function has one node at the top, and every node has the time of the samples
whose innermost functions lead to it, which is enough for its children. -/
structure CompleteBottomUp (worker : PerfWorker) (perfTime : Nat)
    (samples : List PerfCountSample) (view : List PerfBottomUpStruct) :
    Prop where
  once : (view.map PerfBottomUpStruct.symbolName).Nodup
  functions : ∀ function, function ∈ view.map PerfBottomUpStruct.symbolName ↔
    ∃ sample ∈ samples, (worker.innerFrames sample).head? = some function
  selfTime : ∀ top ∈ view, ∀ callers,
    ((top.callerAt callers).map PerfBottomUpStruct.selfTime).getD 0 =
      timeOf perfTime samples fun sample =>
        top.symbolName :: callers <+: worker.innerFrames sample
  enough : ∀ top ∈ view, ∀ callers node, top.callerAt callers = some node →
    (node.children.map PerfBottomUpStruct.selfTime).sum ≤ node.selfTime

def FirstChains (worker : PerfWorker) (perfTime : Nat) (samples : List PerfCountSample) : Prop :=
  ∀ sample ∈ samples, ∀ function callers,
    worker.innerFrames sample = function :: callers → callers ≠ [] →
      (worker.ofSymbol perfTime samples function).head?.map Prod.fst =
        some (worker.innerFrames sample)

variable {view : List PerfBottomUpStruct}

section

variable {levels : Nat}
  (isView : worker.getBottomUp perfTime levels samples = some view)
include isView

theorem mem_view {top : PerfBottomUpStruct} (member : top ∈ view) :
    ∃ first rest, worker.ofSymbol perfTime samples top.symbolName = first :: rest ∧
      top.children = copyParentNode first.2 first.1.tail ∧
      top.selfTime = ((first :: rest).map fun entry => entry.2.selfTime).sum := by
  rw [getBottomUp_eq, Option.some_inj] at isView
  rw [← isView] at member
  rcases mem_map.1 member with ⟨⟨function, node⟩, entry, rfl⟩
  rcases mem_functionNodes entry with
    ⟨first, rest, nodes, _, children, sameName, total⟩
  refine ⟨first, rest, ?_, children, total⟩
  rw [← nodes]
  exact congrArg _ sameName

theorem symbolNames_view : view.map PerfBottomUpStruct.symbolName =
    (worker.functionNodes perfTime samples).map Prod.fst := by
  rw [getBottomUp_eq, Option.some_inj] at isView
  rw [← isView, map_map]
  refine map_congr_left ?_
  rintro ⟨function, node⟩ entry
  rcases mem_functionNodes entry with ⟨_, _, _, _, _, sameName, _⟩
  exact sameName

end

/-- The times along callers are right just where the longer chains of the function
are the chain of its first node. -/
theorem selfTime_callers_iff (positive : ∀ sample ∈ samples, 0 < perfTime * sample.count)
    {first : List String × PerfBottomUpTime} {rest : List (List String × PerfBottomUpTime)}
    (nodes : worker.ofSymbol perfTime samples function = first :: rest) :
    (∀ callers ≠ [], (if callers <+: first.1.tail then first.2.selfTime else 0) =
      timeOf perfTime samples fun sample =>
        function :: callers <+: worker.innerFrames sample) ↔ ∀ sample ∈ samples, ∀ callers,
      worker.innerFrames sample = function :: callers → callers ≠ [] →
        worker.innerFrames sample = first.1 := by
  have isFirst : first ∈ worker.ofSymbol perfTime samples function := by simp [nodes]
  rw [ofSymbol, mem_filter, decide_eq_true_iff] at isFirst
  have head := (symbolName_iff_of_mem isFirst.1 function).1 isFirst.2
  have own := selfTime_of_mem_preorderAll (mem_of_mem_filter isFirst.1)
  have chain : first.1 = function :: first.1.tail := eq_cons_of_mem_head? head
  constructor
  · intro right sample member callers frames nonempty
    have times := right callers nonempty
    have isPositive : 0 < timeOf perfTime samples fun sample =>
      function :: callers <+: worker.innerFrames sample :=
      timeOf_pos positive member (by simp [frames])
    by_cases isPrefix : callers <+: first.1.tail
    · rw [if_pos isPrefix, own] at times
      have onlyFirst := imp_of_timeOf_eq positive ?_ times.ge sample member
      · simpa [frames] using onlyFirst
      · intro other _ isChain
        rw [decide_eq_true_iff] at isChain
        rw [decide_eq_true_iff, isChain, chain]
        exact cons_prefix_cons.2 ⟨rfl, isPrefix⟩
    · rw [if_neg isPrefix] at times
      omega
  · intro longer callers nonempty
    have ofFirst : ∀ sample ∈ samples, function :: callers <+: worker.innerFrames sample →
      worker.innerFrames sample = first.1 := by
      intro sample member isPrefix
      rcases isPrefix with ⟨others, frames⟩
      refine longer sample member (callers ++ others) frames.symm ?_
      simp [nonempty]
    by_cases isPrefix : callers <+: first.1.tail
    · rw [if_pos isPrefix, own]
      refine timeOf_congr fun sample member => ?_
      rw [decide_eq_decide]
      refine ⟨?_, ofFirst sample member⟩
      intro isChain
      rw [isChain, chain]
      exact cons_prefix_cons.2 ⟨rfl, isPrefix⟩
    · rw [if_neg isPrefix, timeOf_eq_zero]
      intro sample member
      rw [decide_eq_false_iff_not]
      intro isPrefixOf
      rw [ofFirst sample member isPrefixOf, chain, cons_prefix_cons] at isPrefixOf
      exact isPrefix isPrefixOf.2

/-- A view is complete just where the longer chains of its functions are those of
their first nodes. -/
theorem complete_iff_firstChains (hasChains :
    ∀ sample ∈ samples, worker.callChainData sample.sampleId ≠ [])
    (positive : ∀ sample ∈ samples, 0 < perfTime * sample.count) {levels : Nat}
    (isView : worker.getBottomUp perfTime levels samples = some view) :
    CompleteBottomUp worker perfTime samples view ↔ FirstChains worker perfTime samples := by
  have names := symbolNames_view isView
  constructor
  · rintro ⟨_, functions, selfTime, _⟩ sample member function callers frames nonempty
    have isName : function ∈ view.map PerfBottomUpStruct.symbolName :=
      (functions function).2 ⟨sample, member, by rw [frames]; rfl⟩
    rcases mem_map.1 isName with ⟨top, isTop, rfl⟩
    rcases mem_view isView isTop with ⟨first, rest, nodes, children, _⟩
    have ofFirst := (selfTime_callers_iff positive nodes).1 ?_ sample member callers frames nonempty
    · rw [nodes, ofFirst]
      rfl
    · intro wanted wantedSome
      rw [← selfTime_callerAt_of_children children wantedSome]
      exact selfTime top isTop wanted
  · intro firstChains
    refine ⟨?_, ?_, ?_, ?_⟩
    · rw [names]
      exact nodup_keys_group _ _ _
    · intro function
      rw [names]
      exact mem_functionNodes_iff hasChains positive function
    · intro top isTop callers
      rcases mem_view isView isTop with ⟨first, rest, nodes, children, total⟩
      cases callers with
      | nil =>
        rw [PerfBottomUpStruct.callerAt, Option.map_some, Option.getD_some,
          total, ← nodes, sum_ofSymbol hasChains positive]
        refine timeOf_congr fun sample _ => ?_
        rw [decide_eq_decide]
        cases worker.innerFrames sample with
        | nil => simp
        | cons innermost _ => simp [eq_comm]
      | cons caller callers =>
        rw [selfTime_callerAt_of_children children (cons_ne_nil _ _)]
        refine (selfTime_callers_iff positive nodes).2 ?_ _ (cons_ne_nil _ _)
        intro sample member others frames nonempty
        have ofFirst := firstChains sample member _ others frames nonempty
        rw [nodes] at ofFirst
        exact (Option.some_inj.1 ofFirst).symm
    · intro top isTop callers node reached
      rcases mem_view isView isTop with ⟨first, rest, _, children, total⟩
      refine sum_children_callerAt_le children ?_ reached
      rw [total, map_cons, sum_cons]
      exact Nat.le_add_right _ _

/-! ## The first node of a function -/

def firstOutermost (worker : PerfWorker) (samples : List PerfCountSample)
    (functions : List String) : Option String :=
  (samples.filterMap worker.outermost).find? fun function => function ∈ functions

/-- Each function has one chain with callers, and where it also comes without, the
chain is that of another outermost function, which comes first. -/
def CallersKept (worker : PerfWorker) (samples : List PerfCountSample) : Prop :=
  ∀ sample ∈ samples, ∀ function callers,
    worker.innerFrames sample = function :: callers → callers ≠ [] →
      ∀ other ∈ samples, (worker.innerFrames other).head? = some function →
        worker.innerFrames other = worker.innerFrames sample ∨
          worker.innerFrames other = [function] ∧ ∃ outermost,
            worker.outermost sample = some outermost ∧ outermost ≠ function ∧
              worker.firstOutermost samples [outermost, function] = some outermost

theorem outermost_eq (sample : PerfCountSample) :
    worker.outermost sample = (worker.innerFrames sample).getLast? := by
  rw [outermost, innerFrames, getLast?_reverse]

theorem getLast?_of_mem_preorder {tree : TopUpTree}
    (member : (place, time) ∈ preorder symbolName [] tree) :
    place.getLast? = some tree.data.symbolName := by
  rcases suffix_of_mem_preorder member with ⟨before, rfl⟩
  simp

theorem mem_preorder_of_getLast? {tree : TopUpTree} (member : tree ∈ worker.topUp perfTime samples)
    (ofAll : (place, time) ∈ preorderAll symbolName [] (worker.topUp perfTime samples))
    (isRoot : place.getLast? = some tree.data.symbolName) :
    (place, time) ∈ preorder symbolName [] tree := by
  rcases exists_callTrie worker perfTime samples with ⟨root, trie⟩
  have keyed := trie.keyed
  rw [trie.children] at keyed
  rcases keyed with ⟨distinct, _⟩
  rw [preorderAll_eq_flatMap, mem_flatMap] at ofAll
  rcases ofAll with ⟨other, ofOther, inside⟩
  rw [getLast?_of_mem_preorder inside, Option.some_inj] at isRoot
  rwa [← inj_on_of_nodup_map distinct ofOther member isRoot]

theorem mem_ofSymbol_iff {entry : List String × PerfBottomUpTime} :
    entry ∈ worker.ofSymbol perfTime samples function ↔
      entry ∈ preorderAll symbolName [] (worker.topUp perfTime samples) ∧
        (decide (0 < entry.2.selfTime) && decide (entry.2.symbolName = function)) = true := by
  rw [ofSymbol, ownNodes, filter_filter, mem_filter, Bool.and_comm]

/-- Where a function has a node without callers and one with, its first node is below
the root that comes first. -/
theorem exists_root_of_first {outermost : String} {chain : List String}
    {chainTime singleTime : PerfBottomUpTime} (ofChain :
      (chain, chainTime) ∈ worker.ofSymbol perfTime samples function)
    (ofSingle : ([function], singleTime) ∈ worker.ofSymbol perfTime samples function)
    (only : ∀ entry ∈ worker.ofSymbol perfTime samples function,
      entry.1 = chain ∨ entry.1 = [function]) (isOutermost : chain.getLast? = some outermost)
    {first : List String × PerfBottomUpTime} (isFirst :
      (worker.ofSymbol perfTime samples function).head? = some first) :
    ∃ tree ∈ worker.topUp perfTime samples, first ∈ preorder symbolName [] tree ∧
      (tree.data.symbolName = function → first.1 = [function]) ∧
      worker.firstOutermost samples [outermost, function] = some tree.data.symbolName := by
  rcases exists_callTrie worker perfTime samples with ⟨root, trie⟩
  rw [ofSymbol, ownNodes, filter_filter, head?_filter] at isFirst
  rw [mem_ofSymbol_iff] at ofChain ofSingle
  have agree : ∀ tree ∈ worker.topUp perfTime samples,
    decide (tree.data.symbolName ∈ [outermost, function]) =
      (preorder symbolName [] tree).any fun entry =>
        decide (entry.2.symbolName = function) && decide (0 < entry.2.selfTime) := by
    intro tree member
    rw [Bool.eq_iff_iff, decide_eq_true_iff, any_eq_true]
    constructor
    · intro isRoot
      rcases mem_pair.1 isRoot with isOuter | isFunction
      · refine ⟨_, mem_preorder_of_getLast? member ofChain.1 ?_, ?_⟩
        · rw [isOutermost, isOuter]
        · rw [Bool.and_comm]
          exact ofChain.2
      · refine ⟨_, mem_preorder_of_getLast? member ofSingle.1 ?_, ?_⟩
        · rw [getLast?_singleton, isFunction]
        · rw [Bool.and_comm]
          exact ofSingle.2
    · rintro ⟨entry, inside, isNode⟩
      rw [Bool.and_comm] at isNode
      have ofAll : entry ∈ preorderAll symbolName [] (worker.topUp perfTime samples) := by
        rw [preorderAll_eq_flatMap]
        exact mem_flatMap.2 ⟨tree, member, inside⟩
      have isRoot := getLast?_of_mem_preorder inside
      rcases only entry (mem_ofSymbol_iff.2 ⟨ofAll, isNode⟩) with
        isChain | isSingle
      · rw [isChain, isOutermost, Option.some_inj] at isRoot
        simp [isRoot]
      · rw [isSingle, getLast?_singleton, Option.some_inj] at isRoot
        simp [isRoot]
  rcases exists_tree_of_find?_preorderAll
    (fun name => decide (name ∈ [outermost, function])) agree isFirst with
    ⟨tree, member, found, isFirstRoot⟩
  refine ⟨tree, member, mem_of_find?_eq_some found, ?_, ?_⟩
  · intro isFunction
    cases tree with
    | node time children =>
      rw [MergeTree.data_node] at isFunction
      have ofRoot : ([function], time) ∈
        preorderAll symbolName [] (worker.topUp perfTime samples) := by
        rw [preorderAll_eq_flatMap]
        refine mem_flatMap.2 ⟨_, member, ?_⟩
        simp [preorder, isFunction]
      have sameEntry := inj_on_of_nodup_map
        (nodup_places worker perfTime samples) ofRoot ofSingle.1 rfl
      cases sameEntry
      have isNode := ofSingle.2
      rw [Bool.and_eq_true, decide_eq_true_iff, decide_eq_true_iff] at isNode
      rw [preorder, find?_cons_of_pos (by simp [isNode.1, isFunction])]
        at found
      cases found
      rw [isFunction]
  · rw [firstOutermost, ← trie.order, trie.children]
    exact isFirstRoot

theorem firstChains_iff (hasChains : ∀ sample ∈ samples, worker.callChainData sample.sampleId ≠ [])
    (positive : ∀ sample ∈ samples, 0 < perfTime * sample.count) :
    FirstChains worker perfTime samples ↔ CallersKept worker samples := by
  have ofSymbolOf : ∀ sample ∈ samples, ∀ function,
    (worker.innerFrames sample).head? = some function →
      ∃ time, (worker.innerFrames sample, time) ∈ worker.ofSymbol perfTime samples function := by
    intro sample member function isInnermost
    rcases exists_mem_ownNodes hasChains positive member with ⟨time, ofOwn⟩
    exact ⟨time, mem_filter.2 ⟨ofOwn, decide_eq_true
      ((symbolName_iff_of_mem ofOwn function).2 isInnermost)⟩⟩
  have exists_sample : ∀ function, ∀ entry ∈ worker.ofSymbol perfTime samples function,
    ∃ sample ∈ samples, worker.innerFrames sample = entry.1 ∧
      (worker.innerFrames sample).head? = some function := by
    rintro function ⟨place, time⟩ member
    rw [ofSymbol, mem_filter, decide_eq_true_iff] at member
    rcases exists_sample_of_mem_ownNodes member.1 with
      ⟨sample, isSample, frames⟩
    refine ⟨sample, isSample, frames, ?_⟩
    rw [frames]
    exact (symbolName_iff_of_mem member.1 function).1 member.2
  constructor
  · intro firstChains sample member function callers frames nonempty
    have ofSample := firstChains sample member function callers frames nonempty
    have longerOrSingle : ∀ other ∈ samples, (worker.innerFrames other).head? = some function →
      worker.innerFrames other = worker.innerFrames sample ∨
        worker.innerFrames other = [function] := by
      intro other isOther isInnermost
      have frames := eq_cons_of_mem_head? isInnermost
      cases rest : (worker.innerFrames other).tail with
      | nil => exact .inr (by rw [frames, rest])
      | cons next others =>
        rw [rest] at frames
        have ofOther := firstChains other isOther function _ frames (cons_ne_nil _ _)
        rw [ofSample] at ofOther
        exact .inl (Option.some_inj.1 ofOther).symm
    intro other isOther isInnermost
    rcases longerOrSingle other isOther isInnermost with
      isChain | framesOther
    · exact .inl isChain
    · refine .inr ⟨framesOther, ?_⟩
      rcases ofSymbolOf other isOther function isInnermost with
        ⟨singleTime, ofSingle⟩
      rw [framesOther] at ofSingle
      have only : ∀ entry ∈ worker.ofSymbol perfTime samples function,
        entry.1 = worker.innerFrames sample ∨ entry.1 = [function] := by
        intro entry ofFunction
        rcases exists_sample function entry ofFunction with
          ⟨another, isAnother, framesAnother, innermost⟩
        rw [← framesAnother]
        exact longerOrSingle another isAnother innermost
      rcases Option.map_eq_some_iff.1 ofSample with
        ⟨first, isFirst, isChain⟩
      have ofChain := mem_of_head? isFirst
      rw [← Prod.mk.eta (p := first), isChain] at ofChain
      cases isOutermost : (worker.innerFrames sample).getLast? with
      | none =>
        rw [getLast?_eq_none_iff, frames] at isOutermost
        cases isOutermost
      | some outermost =>
        rcases exists_root_of_first ofChain ofSingle only isOutermost isFirst with
          ⟨tree, _, inside, single, isFirstRoot⟩
        have root := getLast?_of_mem_preorder inside
        rw [isChain, isOutermost, Option.some_inj] at root
        refine ⟨outermost, (outermost_eq sample).trans isOutermost, ?_, ?_⟩
        · intro isFunction
          rw [isChain, frames] at single
          exact nonempty (tail_eq_of_cons_eq (single (root.symm.trans isFunction)))
        · rw [isFirstRoot, root]
  · intro kept sample member function callers frames nonempty
    have isInnermost : (worker.innerFrames sample).head? = some function := by
      rw [frames]
      rfl
    rcases ofSymbolOf sample member function isInnermost with
      ⟨chainTime, ofChain⟩
    have only : ∀ entry ∈ worker.ofSymbol perfTime samples function,
      entry.1 = worker.innerFrames sample ∨ entry.1 = [function] := by
      intro entry ofFunction
      rcases exists_sample function entry ofFunction with
        ⟨other, isOther, frames, innermost⟩
      rw [← frames]
      exact (kept sample member function callers ‹_› nonempty other isOther
        innermost).imp_right And.left
    cases isFirst : (worker.ofSymbol perfTime samples function).head? with
    | none =>
      rw [head?_eq_none_iff] at isFirst
      rw [isFirst] at ofChain
      cases ofChain
    | some first =>
      rw [Option.map_some, Option.some_inj]
      have ofFunction := mem_of_head? isFirst
      rcases only first ofFunction with isChain | isSingle
      · exact isChain
      · rcases exists_sample function first ofFunction with
          ⟨other, isOther, framesOther, innermost⟩
        rw [isSingle] at framesOther
        rcases kept sample member function callers frames nonempty other isOther innermost with
          same | ⟨_, outermost, isOutermost, different, comesFirst⟩
        · rw [isSingle, ← framesOther, same]
        · rw [outermost_eq] at isOutermost
          have ofSingle : ([function], first.2) ∈ worker.ofSymbol perfTime samples function := by
            rw [← isSingle]
            exact ofFunction
          rcases exists_root_of_first ofChain ofSingle only isOutermost isFirst with
            ⟨tree, _, inside, _, isFirstRoot⟩
          rw [comesFirst, Option.some_inj] at isFirstRoot
          have root := getLast?_of_mem_preorder inside
          rw [isSingle, ← isFirstRoot, getLast?_singleton, Option.some_inj] at root
          exact absurd root.symm different

/-- The view of `getBottomUp` is complete just where the callers of its functions are
kept. -/
theorem completeBottomUp_iff (worker : PerfWorker) (perfTime levels : Nat)
    {samples : List PerfCountSample} (hasChains :
      ∀ sample ∈ samples, worker.callChainData sample.sampleId ≠ [])
    (positive : ∀ sample ∈ samples, 0 < perfTime * sample.count) :
    (∃ view, worker.getBottomUp perfTime levels samples = some view ∧
      CompleteBottomUp worker perfTime samples view) ↔ CallersKept worker samples := by
  rw [← firstChains_iff hasChains positive]
  constructor
  · rintro ⟨view, isView, complete⟩
    exact (complete_iff_firstChains hasChains positive isView).1 complete
  · intro firstChains
    have isView := @getBottomUp_eq worker perfTime levels samples
    exact ⟨_, isView, (complete_iff_firstChains hasChains positive isView).2 firstChains⟩

def oneCaller : PerfWorker where
  threadData _ := { threadName := "main", processName := "app" }
  callChainData sampleId :=
    if sampleId = 0 then
      [{ name := "run", fileName := "app" }, { name := "read", fileName := "libc" }]
    else [{ name := "read", fileName := "libc" }]

def oneCallerSamples : List PerfCountSample :=
  [{ sampleId := 0, tid := 1, count := 2, threadState := "", pid := 1, ts := [0] },
    { sampleId := 1, tid := 1, count := 3, threadState := "", pid := 1, ts := [1] }]

/-- The function has its five counts, two of them with its caller. -/
theorem completeBottomUp_oneCaller :
    ∃ view, oneCaller.getBottomUp 1 0 oneCallerSamples = some view ∧
      CompleteBottomUp oneCaller 1 oneCallerSamples view := by
  refine (completeBottomUp_iff oneCaller 1 0 (by decide) (by decide)).2 ?_
  have withCaller : oneCaller.innerFrames ⟨0, 1, 2, "", 1, [0]⟩ =
    ["read(libc)", "run(app)"] := by decide
  have alone : oneCaller.innerFrames ⟨1, 1, 3, "", 1, [1]⟩ = ["read(libc)"] := by decide
  intro sample member function callers frames nonempty other isOther _
  rcases mem_pair.1 member with rfl | rfl
  · rw [withCaller] at frames ⊢
    cases frames
    rcases mem_pair.1 isOther with rfl | rfl
    · exact .inl withCaller
    · exact .inr ⟨alone, "run(app)", by decide, by decide, by decide⟩
  · rw [alone] at frames
    cases frames
    exact absurd rfl nonempty

def twoCallers : PerfWorker where
  threadData _ := { threadName := "main", processName := "app" }
  callChainData sampleId :=
    if sampleId = 0 then
      [{ name := "run", fileName := "app" }, { name := "read", fileName := "libc" }]
    else [{ name := "stop", fileName := "app" }, { name := "read", fileName := "libc" }]

theorem not_completeBottomUp_twoCallers :
    ¬ ∃ view, twoCallers.getBottomUp 1 1 oneCallerSamples = some view ∧
      CompleteBottomUp twoCallers 1 oneCallerSamples view := by
  rintro ⟨view, isView, complete⟩
  have computed : twoCallers.getBottomUp 1 1 oneCallerSamples =
    some [.node ⟨"read(libc)", 5, 5, [0, 1]⟩
      [.node ⟨"run(app)", 2, 2, [0]⟩ [] none] (some [])] := rfl
  rw [computed, Option.some_inj] at isView
  subst isView
  have ofSecond := complete.selfTime _ mem_cons_self ["stop(app)"]
  have lost : (0 : Nat) = 3 := ofSecond
  cases lost

end PerfWorker

end SysAnalyzer.LogicWorker
