import SysAnalyzer.Foundation.MergeTrie
import SysAnalyzer.Foundation.PropertyMap
import SysAnalyzer.LogicWorker.MergeByIndex
import SysAnalyzer.LogicWorker.NativeAttribution

/-!
# The call trees of native memory

`freshCurrentCallchains` merges the call chains of samples into trees.  A root is
found by a text of its thread and of the ids of its frame, and the roots of a
thread come below one node.

The node along a path of ids has the sizes and the counts of the samples of its
thread whose call chains begin with the path.
-/

namespace SysAnalyzer.LogicWorker

open Foundation List

structure NativeHookStatistics where
  eventId : Int
  tid : Nat
  heapSize : Nat
  count : Nat

/-- `NativeHookCallInfo` without other nodes. -/
structure NativeHookCallInfo where
  symbol : String := ""
  symbolId : Nat := 0
  fileId : Nat := 0
  tid : Nat := 0
  count : Nat := 0
  heapSize : Nat := 0

/-- A node with its `initChildren`. -/
abbrev NativeTree := MergeTree NativeHookCallInfo

def countOrOne (count : Nat) : Nat := if count = 0 then 1 else count

namespace HeapTreeDataBean

def ids (frame : HeapTreeDataBean) : Nat × Nat := (frame.symbolId, frame.fileId)

end HeapTreeDataBean

namespace NativeHookCallInfo

def ids (node : NativeHookCallInfo) : Nat × Nat := (node.symbolId, node.fileId)

def merageCallChainSample (sample : NativeHookStatistics)
    (currentNode : NativeHookCallInfo) (callChain : HeapTreeDataBean)
    (_isEnd : Bool) : NativeHookCallInfo :=
  let named :=
    if currentNode.symbol = "" then
      { currentNode with
        symbol := callChain.AllocationFunction
        symbolId := callChain.symbolId
        fileId := callChain.fileId
        tid := sample.tid }
    else currentNode
  { named with
    count := named.count + countOrOne sample.count
    heapSize := named.heapSize + sample.heapSize }

def isFrame (child : NativeHookCallInfo) (frame : HeapTreeDataBean) : Bool :=
  child.symbolId == frame.symbolId && child.fileId == frame.fileId

end NativeHookCallInfo

open NativeHookCallInfo

def idText (id : Nat) : String := if id = 0 then "" else toString id

def rootText (tid : Nat) (ids : Nat × Nat) : String :=
  toString tid ++ "-" ++ idText ids.1 ++ "-" ++ idText ids.2

namespace NativeHookCache

variable (cache : NativeHookCache) (isTopDown : Bool)

def createThreadSample (sample : NativeHookStatistics) : List HeapTreeDataBean :=
  cache.nmHeapFrameMap sample.eventId

def topFrame (sample : NativeHookStatistics) : HeapTreeDataBean :=
  let callChains := cache.createThreadSample sample
  (callChains[topIndex isTopDown callChains]?).getD ⟨"", 0, 0⟩

def mergeSample (sample : NativeHookStatistics) (root : Option NativeTree) : NativeTree :=
  let callChains := cache.createThreadSample sample
  let old := root.getD (.node {} [])
  let root := .node (merageCallChainSample sample old.data (cache.topFrame isTopDown sample) false)
    old.children
  if 1 < callChains.length then
    mergeByIndex isFrame {} (merageCallChainSample sample) callChains isTopDown
      callChains.length root (topIndex isTopDown callChains)
  else root

def isTaken (sample : NativeHookStatistics) : Bool :=
  sample.eventId != -1 && !(cache.createThreadSample sample).isEmpty

def currentTreeMapData (samples : List NativeHookStatistics) : List (String × NativeTree) :=
  group (fun sample => rootText sample.tid (cache.topFrame isTopDown sample).ids)
    (cache.mergeSample isTopDown) (samples.filter cache.isTaken)

/-- A root comes below the node of its thread. -/
def addToThread (merageData : NativeTree) (threadMerageData : Option NativeTree) : NativeTree :=
  let old := threadMerageData.getD (.node {} [])
  .node
    { old.data with
      count := old.data.count + countOrOne merageData.data.count
      heapSize := old.data.heapSize + merageData.data.heapSize }
    (old.children ++ [merageData])

/-- `rootMerageMap` of `freshCurrentCallchains`, the nodes of threads. -/
def rootMerageMap (samples : List NativeHookStatistics) : List (String × NativeTree) :=
  group (fun root => toString root.data.tid) addToThread
    (objectValues (cache.currentTreeMapData isTopDown samples))

/-- `allThreads` after `freshCurrentCallchains`. -/
def freshCurrentCallchains (samples : List NativeHookStatistics) : List NativeTree :=
  objectValues (cache.rootMerageMap isTopDown samples)

def path (sample : NativeHookStatistics) : List (Nat × Nat) :=
  (directed isTopDown (cache.createThreadSample sample)).map HeapTreeDataBean.ids

/-- The samples of a thread whose call chains begin with a path. -/
def along (samples : List NativeHookStatistics) (tid : Nat)
    (path : List (Nat × Nat)) : List NativeHookStatistics :=
  (samples.filter cache.isTaken).filter fun sample =>
    sample.tid = tid ∧ path <+: cache.path isTopDown sample

structure Totals (samples : List NativeHookStatistics) (node : NativeTree) :
    Prop where
  heapSize : node.data.heapSize = (samples.map NativeHookStatistics.heapSize).sum
  count : node.data.count = (samples.map fun sample => countOrOne sample.count).sum

end NativeHookCache

/-! ## The texts of roots -/

theorem minus_not_mem_repr (number : Nat) : '-' ∉ (toString number).toList := by
  rw [Nat.toString_eq_repr, Nat.toList_repr]
  exact fun member => absurd
    (Nat.isDigit_of_mem_toDigits (by decide) (by decide) member) (by decide)

theorem minus_not_mem_idText (id : Nat) : '-' ∉ (idText id).toList := by
  unfold idText
  split_ifs
  · simp
  · exact minus_not_mem_repr id

theorem idText_injective : Function.Injective idText := by
  intro first second same
  unfold idText at same
  have some {id : Nat} : toString id ≠ "" := Nat.repr_ne_empty
  split_ifs at same with zero none none
  · rw [zero, none]
  · exact absurd same.symm some
  · exact absurd same some
  · exact Nat.repr_injective same

theorem parts_of_separator {Letter : Type*} {separator : Letter}
    {first second rest others : List Letter} (noFirst : separator ∉ first)
    (noSecond : separator ∉ second)
    (same : first ++ separator :: rest = second ++ separator :: others) :
    first = second ∧ rest = others := by
  simp only [append_eq_append_iff, cons_eq_append_iff, cons_eq_cons] at same
  rcases same with ⟨between, rfl, ⟨rfl, -, rfl⟩ | ⟨more, rfl, rfl⟩⟩ |
    ⟨between, rfl, ⟨rfl, -, rfl⟩ | ⟨more, rfl, rfl⟩⟩ <;> simp_all

theorem rootText_inj {tid other : Nat} {ids others : Nat × Nat} :
    rootText tid ids = rootText other others ↔ tid = other ∧ ids = others := by
  refine ⟨fun same => ?_, fun same => by rw [same.1, same.2]⟩
  have text := congrArg String.toList same
  have minus : "-".toList = ['-'] := rfl
  simp only [rootText, String.toList_append, append_assoc, minus, singleton_append] at text
  rcases parts_of_separator (minus_not_mem_repr _) (minus_not_mem_repr _) text
    with ⟨sameTid, text⟩
  rcases parts_of_separator (minus_not_mem_idText _) (minus_not_mem_idText _) text
    with ⟨sameSymbol, sameFile⟩
  exact ⟨Nat.repr_injective (String.toList_inj.1 sameTid),
    Prod.ext (idText_injective (String.toList_inj.1 sameSymbol))
      (idText_injective (String.toList_inj.1 sameFile))⟩

namespace NativeHookCache

variable {cache : NativeHookCache} {isTopDown : Bool}
  {sample : NativeHookStatistics}

theorem named_merageCallChainSample (sample : NativeHookStatistics) :
    Named NativeHookCallInfo.ids HeapTreeDataBean.ids isFrame {}
      (merageCallChainSample sample) where
  same_iff := by simp [isFrame, NativeHookCallInfo.ids, HeapTreeDataBean.ids]
  key_fresh := by simp [merageCallChainSample, NativeHookCallInfo.ids, HeapTreeDataBean.ids]
  key_absorb := by
    intro data frame isEnd same
    unfold merageCallChainSample
    by_cases unnamed : data.symbol = ""
    · simp [unnamed, NativeHookCallInfo.ids, HeapTreeDataBean.ids]
    · simpa [unnamed, NativeHookCallInfo.ids] using same

/-- What a number takes from every sample. -/
structure Counts (number : NativeHookCallInfo → Nat)
    (amount : NativeHookStatistics → Nat) : Prop where
  zero : number {} = 0
  adds : ∀ sample data frame isEnd, number (merageCallChainSample sample data frame isEnd) =
    number data + amount sample

theorem counts_heapSize : Counts NativeHookCallInfo.heapSize NativeHookStatistics.heapSize where
  zero := rfl
  adds sample data frame isEnd := by
    unfold merageCallChainSample
    split_ifs <;> rfl

theorem counts_count : Counts NativeHookCallInfo.count fun sample => countOrOne sample.count where
  zero := rfl
  adds sample data frame isEnd := by
    unfold merageCallChainSample
    split_ifs <;> rfl

theorem mergeSample_eq (isTopDown : Bool) (taken : cache.isTaken sample = true)
    (root : Option NativeTree) :
    ∃ top rest, directed isTopDown (cache.createThreadSample sample) = top :: rest ∧
      cache.topFrame isTopDown sample = top ∧ cache.mergeSample isTopDown sample root = .node
        (merageCallChainSample sample (root.getD (.node {} [])).data top false)
        (mergeChain isFrame {} (merageCallChainSample sample) rest
          (root.getD (.node {} [])).children) := by
  have some : cache.createThreadSample sample ≠ [] := by
    simp only [isTaken, Bool.and_eq_true, Bool.not_eq_true', isEmpty_eq_false_iff] at taken
    exact taken.2
  have inside := length_pos_iff.2 some
  have entry := @getElem?_indexOf _ isTopDown _ _ inside
  rw [← topIndex_eq_indexOf] at entry
  cases chain : directed isTopDown (cache.createThreadSample sample) with
  | nil =>
    have length := length_directed isTopDown (cache.createThreadSample sample)
    rw [chain, length_nil] at length
    omega
  | cons top rest =>
    rw [chain, getElem?_cons_zero] at entry
    have isTop : cache.topFrame isTopDown sample = top := by rw [topFrame, entry, Option.getD_some]
    have length := length_directed isTopDown (cache.createThreadSample sample)
    rw [chain, length_cons] at length
    refine ⟨top, rest, rfl, isTop, ?_⟩
    unfold mergeSample
    dsimp only
    rw [isTop]
    by_cases more : 1 < (cache.createThreadSample sample).length
    · rw [if_pos more, topIndex_eq_indexOf, mergeByIndex_eq _ _ _ _ _ _ _
        (by omega) (by omega), chain]
      rfl
    · rw [if_neg more, length_eq_zero_iff.1 (by omega : rest.length = 0)]
      rfl

structure IsRoot (text : String) (root : NativeTree) : Prop where
  text_eq : text = rootText root.data.tid root.data.ids
  keyed : Keyed NativeHookCallInfo.ids root.children
  counted : 0 < root.data.count

/-- A number along a path in a thread with one root. -/
def numberFrom (number : NativeHookCallInfo → Nat) (tid : Nat)
    (path : List (Nat × Nat)) (root : NativeTree) : Nat :=
  if root.data.tid = tid then numberAt NativeHookCallInfo.ids number path (.node root.data [root])
  else 0

theorem numberAt_empty {number : NativeHookCallInfo → Nat} (zero : number {} = 0)
    (path : List (Nat × Nat)) : numberAt NativeHookCallInfo.ids number path (.node {} []) = 0 := by
  cases path with
  | nil => exact zero
  | cons _ _ => rfl

theorem isRoot_mergeSample (taken : cache.isTaken sample = true) {root : Option NativeTree}
    (isRoot : ∀ old ∈ root, IsRoot
      (rootText sample.tid (cache.topFrame isTopDown sample).ids) old) :
    IsRoot (rootText sample.tid (cache.topFrame isTopDown sample).ids)
      (cache.mergeSample isTopDown sample root) ∧
      ∀ {number amount} (_ : Counts number amount) (tid : Nat) (path : List (Nat × Nat)),
        numberFrom number tid path (cache.mergeSample isTopDown sample root) =
          ((root.map (numberFrom number tid path)).getD 0) +
            if sample.tid = tid ∧ path <+: cache.path isTopDown sample then amount sample else
              0 := by
  rcases mergeSample_eq isTopDown taken root with
    ⟨top, rest, chain, isTop, merged⟩
  rw [isTop] at isRoot ⊢
  have names : ∀ old ∈ root, old.data.tid = sample.tid ∧ old.data.ids = top.ids := by
    intro old isOld
    have same := rootText_inj.1 (isRoot old isOld).text_eq
    exact ⟨same.1.symm, same.2.symm⟩
  have keyed : Keyed NativeHookCallInfo.ids root.toList := by
    cases root with
    | none => exact keyed_nil
    | some old => exact .forest (by simp) (by simpa using (isRoot old rfl).keyed)
  have forest : mergeChain isFrame {} (merageCallChainSample sample) (top :: rest)
    root.toList = [cache.mergeSample isTopDown sample root] := by
    rw [merged]
    cases root with
    | none => rfl
    | some old =>
      have same := (named_merageCallChainSample sample).same_iff old.data top
        |>.2 (names old rfl).2
      simp [mergeChain, lastMatch, same, merageCallChainSample]
  have named := named_merageCallChainSample sample
  have dataNames : (cache.mergeSample isTopDown sample root).data.tid = sample.tid ∧
    (cache.mergeSample isTopDown sample root).data.ids = top.ids := by
    rw [merged, MergeTree.data_node]
    cases root with
    | none => exact ⟨rfl, named.key_fresh top false⟩
    | some old =>
      refine ⟨?_, named.key_absorb _ _ _ (names old rfl).2⟩
      have sameTid := (names old rfl).1
      unfold merageCallChainSample
      split_ifs
      · rfl
      · exact sameTid
  have keyedAfter := keyed.mergeChain named (top :: rest)
  rw [forest] at keyedAfter
  refine ⟨⟨by rw [dataNames.1, dataNames.2], ?_, ?_⟩, ?_⟩
  · cases keyedAfter with
    | forest _ below => exact below _ mem_cons_self
  · rw [merged, MergeTree.data_node, counts_count.adds, countOrOne]
    split_ifs <;> omega
  · intro number amount counts tid path
    have total : numberAt NativeHookCallInfo.ids number path
      (.node (cache.mergeSample isTopDown sample root).data
        [cache.mergeSample isTopDown sample root]) =
      numberAt NativeHookCallInfo.ids number path
        (.node (root.getD (.node {} [])).data root.toList) +
        if path <+: (top :: rest).map HeapTreeDataBean.ids then amount sample
        else 0 := by
      rw [← forest]
      refine numberAt_total_mergeChain named counts.zero (counts.adds sample) path keyed ?_
      rw [merged]
      exact counts.adds sample _ top false
    rw [numberFrom, dataNames.1, total, NativeHookCache.path, chain]
    by_cases same : sample.tid = tid
    · cases root with
      | none => simp [same, numberAt_empty counts.zero]
      | some old => simp [same, numberFrom, (names old rfl).1]
    · cases root with
      | none => simp [same]
      | some old => simp [same, numberFrom, (names old rfl).1]

theorem sum_currentTreeMapData {number : NativeHookCallInfo → Nat}
    {amount : NativeHookStatistics → Nat} (counts : Counts number amount)
    (samples : List NativeHookStatistics) (tid : Nat) (path : List (Nat × Nat)) :
    (∀ entry ∈ cache.currentTreeMapData isTopDown samples, IsRoot entry.1 entry.2) ∧
      ((cache.currentTreeMapData isTopDown samples).map fun entry =>
        numberFrom number tid path entry.2).sum =
        ((cache.along isTopDown samples tid path).map amount).sum := by
  have kept : ∀ sample ∈ samples.filter cache.isTaken, ∀ old, (∀ root ∈ old,
    IsRoot (rootText sample.tid (cache.topFrame isTopDown sample).ids) root) →
      IsRoot (rootText sample.tid (cache.topFrame isTopDown sample).ids)
        (cache.mergeSample isTopDown sample old) :=
    fun sample member _ isRoot => (isRoot_mergeSample (mem_filter.1 member).2 isRoot).1
  refine ⟨forall_group _ _ kept, (sum_group_of _ _ kept
    (numberFrom number tid path) fun sample member _ isRoot =>
      (isRoot_mergeSample (mem_filter.1 member).2 isRoot).2 counts tid path).trans ?_⟩
  rw [sum_map_ite, along]
  simp

theorem gather_addToThread (roots : List NativeTree) :
    let thread := (gather addToThread roots).getD (.node {} [])
    thread.children = roots ∧
      thread.data.heapSize = (roots.map fun root => root.data.heapSize).sum ∧
      thread.data.count = (roots.map fun root => countOrOne root.data.count).sum := by
  induction roots using reverseRecOn with
  | nil => exact ⟨rfl, rfl, rfl⟩
  | append_singleton roots root induction =>
    rw [gather_concat]
    refine ⟨?_, ?_, ?_⟩
    · simp [addToThread, induction]
    · simp [addToThread, induction]
    · simp [addToThread, induction]

def rootsOf (cache : NativeHookCache) (isTopDown : Bool)
    (samples : List NativeHookStatistics) (tid : Nat) : List NativeTree :=
  (objectValues (cache.currentTreeMapData isTopDown samples)).filter fun root =>
    toString root.data.tid = toString tid

variable {samples : List NativeHookStatistics} {tid : Nat} {root : NativeTree}

theorem of_mem_rootsOf (member : root ∈ cache.rootsOf isTopDown samples tid) :
    root.data.tid = tid ∧ IsRoot (rootText root.data.tid root.data.ids) root := by
  rw [rootsOf, mem_filter, decide_eq_true_iff, (perm_objectValues _).mem_iff, mem_map] at member
  rcases member with ⟨⟨entry, ofMap, rfl⟩, same⟩
  have isRoot := (sum_currentTreeMapData counts_count samples tid []).1 entry ofMap
  exact ⟨Nat.repr_injective same, isRoot.text_eq ▸ isRoot⟩

theorem nodup_ids_rootsOf : ((cache.rootsOf isTopDown samples tid).map fun root =>
    root.data.ids).Nodup := by
  have distinct : ((cache.currentTreeMapData isTopDown samples).map
    Prod.fst).Nodup := nodup_keys_group _ _ _
  rw [map_congr_left fun entry member =>
    ((sum_currentTreeMapData counts_count samples tid []).1 entry member).text_eq,
    ← Function.comp_def (fun root : NativeTree => rootText root.data.tid root.data.ids), ← map_map,
    ← ((perm_objectValues _).map _).nodup_iff] at distinct
  have among := distinct.sublist (filter_sublist.map _ : map _ (cache.rootsOf
    isTopDown samples tid) <+ _)
  rw [map_congr_left fun root member => by rw [(of_mem_rootsOf member).1]] at among
  refine Nodup.of_map (rootText tid) ?_
  rw [map_map]
  exact among

theorem numberAt_thread {number : NativeHookCallInfo → Nat}
    {amount : NativeHookStatistics → Nat} (counts : Counts number amount) {thread : NativeTree}
    (children : thread.children = cache.rootsOf isTopDown samples tid)
    (own : number thread.data = ((cache.rootsOf isTopDown samples tid).map
      fun root => number root.data).sum) (path : List (Nat × Nat)) :
    numberAt NativeHookCallInfo.ids number path thread =
      ((cache.along isTopDown samples tid path).map amount).sum := by
  rw [← (sum_currentTreeMapData counts samples tid path).2,
    ← Function.comp_def (numberFrom number tid path), ← map_map,
    ← ((perm_objectValues _).map _).sum_eq]
  have ofThread : ((objectValues (cache.currentTreeMapData isTopDown samples)).map
    (numberFrom number tid path)).sum = ((cache.rootsOf isTopDown samples tid).map fun root =>
      numberAt NativeHookCallInfo.ids number path (.node root.data [root])).sum := by
    unfold numberFrom rootsOf
    rw [sum_map_ite]
    simp
  rw [ofThread]
  cases path with
  | nil => exact own
  | cons ids rest =>
    have single (root : NativeTree) : numberAt NativeHookCallInfo.ids number (ids :: rest)
      (.node root.data [root]) = if root.data.ids = ids then
        numberAt NativeHookCallInfo.ids number rest root
        else
          0 := by
      by_cases same : root.data.ids = ids <;> simp [numberAt, nodeAt, withKey, same]
    simp only [single]
    rw [sum_of_key nodup_ids_rootsOf, numberAt, nodeAt, children, withKey]
    cases find? _ (cache.rootsOf isTopDown samples tid) <;> rfl

/-- Below every thread, the node along a path has the sizes and the counts of the
samples whose call chains begin with the path, and there is one where there are
such samples. -/
theorem freshCurrentCallchains_totals (cache : NativeHookCache) (isTopDown : Bool)
    (samples : List NativeHookStatistics) (tid : Nat) (path : List (Nat × Nat)) :
    match ((cache.rootMerageMap isTopDown samples).lookup (toString tid)).bind
      (nodeAt NativeHookCallInfo.ids path) with
    | none => cache.along isTopDown samples tid path = []
    | some node => Totals (cache.along isTopDown samples tid path) node := by
  rcases gather_addToThread (cache.rootsOf isTopDown samples tid) with
    ⟨children, heapSize, count⟩
  have counted : (cache.rootsOf isTopDown samples tid).map (fun root =>
    countOrOne root.data.count) =
      (cache.rootsOf isTopDown samples tid).map fun root => root.data.count :=
    map_congr_left fun root member => if_neg (of_mem_rootsOf member).2.counted.ne'
  rw [counted] at count
  have sizes := numberAt_thread counts_heapSize children heapSize path
  have counts := numberAt_thread counts_count children count path
  rw [rootMerageMap, lookup_group, ← rootsOf]
  have none (zero : 0 = ((cache.along isTopDown samples tid path).map
    fun sample => countOrOne sample.count).sum) :
    cache.along isTopDown samples tid path = [] := by
    cases along : cache.along isTopDown samples tid path with
    | nil => rfl
    | cons sample others =>
      rw [along, map_cons, sum_cons, countOrOne] at zero
      split_ifs at zero <;> omega
  cases found : gather addToThread (cache.rootsOf isTopDown samples tid) with
  | none =>
    rw [found, Option.getD_none, numberAt_empty rfl] at counts
    exact none counts
  | some thread =>
    rw [found, Option.getD_some, numberAt] at sizes counts
    rw [Option.bind_some]
    cases reached : nodeAt NativeHookCallInfo.ids path thread with
    | none =>
      rw [reached] at counts
      exact none counts
    | some node =>
      rw [reached] at sizes counts
      exact ⟨sizes, counts⟩

/-- The trees handed on are the nodes of the threads. -/
theorem mem_freshCurrentCallchains {cache : NativeHookCache} {isTopDown : Bool}
    {samples : List NativeHookStatistics} {root : NativeTree} :
    root ∈ cache.freshCurrentCallchains isTopDown samples ↔
      ∃ tid : Nat, (cache.rootMerageMap isTopDown samples).lookup (toString tid) = some root := by
  unfold freshCurrentCallchains rootMerageMap
  rw [mem_objectValues_group_iff]
  simp only [lookup_group]
  constructor
  · rintro ⟨wanted, gathered⟩
    cases taken : (objectValues (cache.currentTreeMapData isTopDown samples)).filter
      fun root => toString root.data.tid = wanted with
    | nil =>
      rw [taken] at gathered
      cases gathered
    | cons first others =>
      have member : first ∈ _ := taken ▸ mem_cons_self
      have isWanted := of_decide_eq_true (mem_filter.1 member).2
      subst isWanted
      exact ⟨first.data.tid, gathered⟩
  · rintro ⟨tid, gathered⟩
    exact ⟨toString tid, gathered⟩

end NativeHookCache

end SysAnalyzer.LogicWorker
