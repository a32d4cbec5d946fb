import SysAnalyzer.LogicWorker.FileCallChains

/-!
# Totals in file system call trees

A sample is counted at the process of the first sample with its root key, so the
totals of the processes are right where the samples that go to other processes
make up for each other.

A frame can match two children, one by its address and the other by its symbol
and path.  Both take the sample, and the tree is not balanced any more, unless
the sample has no duration.  So every node is balanced just where no such frame
comes.
-/

namespace SysAnalyzer.LogicWorker

open Foundation List
open FileMerageBean

namespace FileMerageBean

variable (sample : FileSample) (data : FileMerageBean)
  (frame : FileCallChain) (isEnd : Bool)

@[simp]
theorem named_dur : (data.named frame sample).dur = data.dur := by
  unfold named
  split_ifs <;> rfl

@[simp]
theorem named_selfDur : (data.named frame sample).selfDur = data.selfDur := by
  unfold named
  split_ifs <;> rfl

@[simp]
theorem named_count : (data.named frame sample).count = data.count := by
  unfold named
  split_ifs <;> rfl

theorem adds_merageCallChainSample :
    Adds {} (merageCallChainSample sample) dur selfDur sample.dur where
  total_fresh := rfl
  own_fresh := rfl
  total_absorb := by simp [merageCallChainSample]
  own_absorb := by
    intro data frame isEnd
    cases isEnd <;> simp [merageCallChainSample]

theorem merageCallChainSample_pid : (merageCallChainSample sample data frame isEnd).pid =
    (if data.processName = "" then sample.pid else data.pid) ∧
    (merageCallChainSample sample data frame isEnd).processName ≠ "" := by
  unfold merageCallChainSample named
  by_cases unnamed : data.processName = ""
  · by_cases noName : sample.processName = ""
    · simp [unnamed, noName]
    · simp [unnamed, noName]
  · simp [unnamed]

end FileMerageBean

namespace FileHandler

variable {handler : FileHandler} {isTopDown : Bool}

def chained (handler : FileHandler) (samples : List FileSample) : List FileSample :=
  samples.filter handler.hasCallChain

/-- A sample is led down its root without a frame that matches two children, or has
no duration. -/
def MergesSingly (handler : FileHandler) (isTopDown : Bool)
    (treeMap : List (String × FileTree)) (sample : FileSample) : Prop :=
  handler.hasCallChain sample = true → sample.dur = 0 ∨ SingleMatch isFrame
    (directed isTopDown (handler.createThreadAndType sample)).tail
    ((treeMap.lookup (handler.rootKey isTopDown sample)).getD (.node {} [])).children

theorem takes_topFrame (sample : FileSample) (data : FileMerageBean) : Takes dur selfDur sample.dur
    (directed isTopDown (handler.createThreadAndType sample)).tail.isEmpty data
    (merageCallChainSample sample data (handler.topFrame isTopDown sample) false) := by
  rw [tail_directed_ne_nil]
  exact takes_absorb (adds_merageCallChainSample sample) _ _ _

theorem balanced_fresh : Balanced dur selfDur (.node {} []) := .node rfl (by simp)

theorem balanced_mergeSample_or (sample : FileSample) {root : Option FileTree}
    (balanced : Balanced dur selfDur (root.getD (.node {} []))) :
    (sample.dur = 0 ∨ SingleMatch isFrame
      (directed isTopDown (handler.createThreadAndType sample)).tail
      (root.getD (.node {} [])).children) ∧
      Balanced dur selfDur (handler.mergeSample isTopDown sample root) ∨
    (¬ (sample.dur = 0 ∨ SingleMatch isFrame
      (directed isTopDown (handler.createThreadAndType sample)).tail
      (root.getD (.node {} [])).children)) ∧
      Overweight dur selfDur (handler.mergeSample isTopDown sample root) := by
  rw [mergeSample_eq]
  have adds := adds_merageCallChainSample sample
  cases tree : root.getD (.node {} []) with
  | node data children =>
    rw [tree] at balanced
    dsimp only [MergeTree.children_node, MergeTree.data_node]
    by_cases single : sample.dur = 0 ∨ SingleMatch isFrame
      (directed isTopDown (handler.createThreadAndType sample)).tail
      children
    · exact .inl ⟨single, balanced.descend adds single (takes_topFrame sample data)⟩
    · rw [not_or] at single
      exact .inr ⟨not_or.2 single, balanced.overweight_descend adds single.1 single.2
        (takes_topFrame sample data)⟩

theorem overweight_mergeSample {sample : FileSample} {root : FileTree}
    (overweight : Overweight dur selfDur root) :
    Overweight dur selfDur (handler.mergeSample isTopDown sample (some root)) := by
  rw [mergeSample_eq, Option.getD_some]
  cases root with
  | node data children =>
    exact overweight.descend (adds_merageCallChainSample sample) (takes_topFrame sample data)

/-- All roots are balanced as long as samples are led down them so, and then never
more. -/
theorem balanced_or_overweight (handler : FileHandler) (isTopDown : Bool)
    (samples : List FileSample) :
    (EachStep (handler.addSample isTopDown) (MergesSingly handler isTopDown) [] samples ∧
      ∀ key root, (handler.currentTreeMapData isTopDown samples).lookup key = some root →
        Balanced dur selfDur root) ∨
    (¬ EachStep (handler.addSample isTopDown) (MergesSingly handler isTopDown) [] samples ∧
      ∃ key root, (handler.currentTreeMapData isTopDown samples).lookup key = some root ∧
        Overweight dur selfDur root) := by
  induction samples using reverseRecOn with
  | nil => exact .inl ⟨trivial, by simp [currentTreeMapData]⟩
  | append_singleton samples sample induction =>
    have after : handler.currentTreeMapData isTopDown (samples ++ [sample]) =
      handler.addSample isTopDown (handler.currentTreeMapData isTopDown samples) sample := by
      rw [currentTreeMapData, run_append]
      rfl
    rw [after, addSample_eq, eachStep_append]
    cases hasChain : handler.hasCallChain sample with
    | false =>
      have vacuous : EachStep (handler.addSample isTopDown) (MergesSingly handler isTopDown)
        (run (handler.addSample isTopDown) [] samples) [sample] := by
        refine ⟨fun isTrue => ?_, trivial⟩
        rw [hasChain] at isTrue
        cases isTrue
      simpa [vacuous] using induction
    | true =>
      rw [if_pos rfl]
      simp only [lookup_upsert]
      rcases induction with
        ⟨steps, balanced⟩ | ⟨notSteps, key, root, isRoot, overweight⟩
      · have before : Balanced dur selfDur (((handler.currentTreeMapData isTopDown samples).lookup
          (handler.rootKey isTopDown sample)).getD (.node {} [])) := by
          cases isRoot : (handler.currentTreeMapData isTopDown
            samples).lookup (handler.rootKey isTopDown sample) with
          | none => exact balanced_fresh
          | some root => exact balanced _ root isRoot
        rcases balanced_mergeSample_or sample before with
          ⟨single, now⟩ | ⟨notSingle, now⟩
        · refine .inl ⟨⟨steps, fun _ => single, trivial⟩, ?_⟩
          intro key root isRoot
          by_cases same : key = handler.rootKey isTopDown sample
          · rw [if_pos same, Option.some.injEq] at isRoot
            rw [← isRoot]
            exact now
          · rw [if_neg same] at isRoot
            exact balanced key root isRoot
        · refine .inr ⟨?_, handler.rootKey isTopDown sample, _, if_pos rfl, now⟩
          rintro ⟨_, step, _⟩
          exact notSingle (step hasChain)
      · refine .inr ⟨fun steps => notSteps steps.1, key, ?_⟩
        by_cases same : key = handler.rootKey isTopDown sample
        · subst same
          refine ⟨_, if_pos rfl, ?_⟩
          rw [isRoot]
          exact overweight_mergeSample overweight
        · exact ⟨root, by rw [if_neg same, isRoot], overweight⟩

theorem nodup_currentTreeMapData (samples : List FileSample) :
    ((handler.currentTreeMapData isTopDown samples).map Prod.fst).Nodup := by
  rw [currentTreeMapData_eq]
  exact nodup_keys_group _ _ _

variable {samples : List FileSample}

theorem pid_of_gather {root : FileTree} (gathered :
    gather (handler.mergeSample isTopDown) samples = some root) :
    root.data.processName ≠ "" ∧ samples.head?.map FileSample.pid = some root.data.pid := by
  induction samples using reverseRecOn generalizing root with
  | nil => cases gathered
  | append_singleton samples sample induction =>
    rw [gather_concat, mergeSample_eq, Option.some.injEq] at gathered
    subst gathered
    have names := merageCallChainSample_pid sample
      ((gather (handler.mergeSample isTopDown) samples).getD (.node {} [])).data
      (handler.topFrame isTopDown sample) false
    refine ⟨names.2, ?_⟩
    rw [MergeTree.data_node, names.1]
    cases earlier : gather (handler.mergeSample isTopDown) samples with
    | none =>
      cases samples with
      | nil => rfl
      | cons first rest =>
        have isSome := gather_isSome (handler.mergeSample isTopDown) (cons_ne_nil first rest)
        rw [earlier] at isSome
        cases isSome
    | some root =>
      rcases induction earlier with ⟨isNamed, first⟩
      rw [Option.getD_some, if_neg isNamed, ← first]
      cases samples with
      | nil => cases earlier
      | cons first rest => rfl

/-- The process of the first sample with a root key. -/
def firstPid (handler : FileHandler) (isTopDown : Bool)
    (samples : List FileSample) (key : String) : Int :=
  (((handler.chained samples).find? fun sample =>
    handler.rootKey isTopDown sample = key).map FileSample.pid).getD 0

/-- The process that a sample is counted at. -/
def attributedPid (handler : FileHandler) (isTopDown : Bool)
    (samples : List FileSample) (sample : FileSample) : Int :=
  firstPid handler isTopDown samples (handler.rootKey isTopDown sample)

theorem pid_of_mem {key : String} {root : FileTree}
    (member : (key, root) ∈ handler.currentTreeMapData isTopDown samples) :
    root.data.pid = firstPid handler isTopDown samples key := by
  rw [currentTreeMapData_eq, mem_group_iff] at member
  have first := (pid_of_gather member).2
  rw [head?_filter] at first
  unfold firstPid chained
  rw [first]
  rfl

theorem perm_roots_ofPid (samples : List FileSample) (pid : Int) :
    ((handler.roots isTopDown samples).filter fun root =>
      root.data.pid = pid).Perm
      ((group (handler.rootKey isTopDown) (handler.mergeSample isTopDown)
        ((handler.chained samples).filter fun sample =>
          attributedPid handler isTopDown samples sample = pid)).map Prod.snd) := by
  have entries := filter_group (handler.rootKey isTopDown) (handler.mergeSample isTopDown)
    (fun key => decide (firstPid handler isTopDown samples key = pid))
    (handler.chained samples)
  unfold attributedPid
  rw [← entries, chained, ← currentTreeMapData_eq]
  refine ((perm_objectValues _).filter _).trans (List.Perm.of_eq ?_)
  rw [filter_map]
  congr 1
  refine filter_congr ?_
  rintro ⟨key, root⟩ member
  exact decide_eq_decide.2 (by rw [← pid_of_mem member])

theorem sum_roots_ofPid {number : FileMerageBean → Nat}
    {amount : FileSample → Nat} (adds : ∀ sample data frame,
      number (merageCallChainSample sample data frame false) = number data + amount sample)
    (zero : number {} = 0) (samples : List FileSample) (pid : Int) :
    weight number ((handler.roots isTopDown samples).filter fun root =>
      root.data.pid = pid) = (((handler.chained samples).filter fun sample =>
      attributedPid handler isTopDown samples sample = pid).map amount).sum := by
  rw [weight_perm (perm_roots_ofPid samples pid), weight, map_map]
  refine sum_group _ _ (fun root : FileTree => number root.data) ?_
  intro sample _ root
  rw [mergeSample_eq, MergeTree.data_node, adds]
  cases root with
  | none => simp [zero]
  | some root => rfl

/-- The process that a node stands for, as its first root has it. -/
def processPid (process : FileTree) : Int :=
  (process.children.head?.map fun root => root.data.pid).getD 0

variable {process : FileTree}

theorem gather_addRoot {roots : List FileTree} (gathered : gather addRoot roots = some process) :
    process.children = roots ∧ process.data.dur = weight dur roots ∧
      process.data.count = weight count roots ∧ process.data.selfDur = 0 := by
  induction roots using reverseRecOn generalizing process with
  | nil => cases gathered
  | append_singleton roots root induction =>
    rw [gather_concat, Option.some.injEq] at gathered
    subst gathered
    cases earlier : gather addRoot roots with
    | none =>
      have none : roots = [] := by
        by_contra nonempty
        have isSome := gather_isSome addRoot nonempty
        rw [earlier] at isSome
        cases isSome
      subst none
      exact ⟨rfl, by simp [addRoot, weight], by simp [addRoot, weight], rfl⟩
    | some process =>
      rcases process with ⟨data, children⟩
      rcases induction earlier with
        ⟨sameChildren, sameDur, sameCount, noSelf⟩
      dsimp only [MergeTree.children_node, MergeTree.data_node] at *
      refine ⟨?_, ?_, ?_, noSelf⟩
      · rw [addRoot, sameChildren]
        rfl
      · rw [weight_append, ← sameDur]
        simp [addRoot, weight]
      · rw [weight_append, ← sameCount]
        simp [addRoot, weight]

theorem toString_processPid {roots : List FileTree} {key : String} (gathered :
    gather addRoot (roots.filter fun root => toString root.data.pid = key) =
      some process) : toString (processPid process) = key := by
  rcases exists_head_of_gather _ _ gathered with ⟨first, rest, ofKey, _, isKey⟩
  unfold processPid
  rw [(gather_addRoot gathered).1, ofKey]
  exact isKey

theorem gather_of_mem_freshCurrentCallChains
    (member : process ∈ handler.freshCurrentCallChains isTopDown samples) :
    gather addRoot ((handler.roots isTopDown samples).filter fun root =>
      root.data.pid = processPid process) = some process := by
  rcases mem_objectValues_group_iff.1 member with ⟨key, gathered⟩
  rw [← gathered]
  congr 1
  refine filter_congr ?_
  intro root _
  rw [← toString_processPid gathered, decide_eq_decide]
  exact ⟨fun same => by rw [same], fun same => Int.repr_injective same⟩

theorem exists_process_iff {pid : Int} :
    (∃ process ∈ handler.freshCurrentCallChains isTopDown samples, processPid process = pid) ↔
      ∃ sample ∈ handler.chained samples, attributedPid handler isTopDown samples sample = pid := by
  constructor
  · rintro ⟨process, member, rfl⟩
    have gathered := gather_of_mem_freshCurrentCallChains member
    rcases exists_head_of_gather _ _ gathered with
      ⟨root, rest, _, isRoot, samePid⟩
    rw [roots, (perm_objectValues _).mem_iff, mem_map] at isRoot
    rcases isRoot with ⟨⟨key, value⟩, entry, rfl⟩
    dsimp only at samePid
    rw [pid_of_mem entry] at samePid
    rw [currentTreeMapData_eq, mem_group_iff] at entry
    rcases exists_head_of_gather _ _ entry with
      ⟨sample, _, _, isSample, rfl⟩
    exact ⟨sample, isSample, samePid⟩
  · rintro ⟨sample, member, rfl⟩
    have key : handler.rootKey isTopDown sample ∈
      (handler.currentTreeMapData isTopDown samples).map Prod.fst := by
      rw [currentTreeMapData_eq, mem_keys_group]
      exact ⟨sample, member, rfl⟩
    rcases mem_map.1 key with ⟨⟨_, root⟩, entry, rfl⟩
    have isRoot : root ∈ handler.roots isTopDown samples := by
      rw [roots, (perm_objectValues _).mem_iff]
      exact mem_map.2 ⟨_, entry, rfl⟩
    have nonempty : (handler.roots isTopDown samples).filter (fun other =>
      toString other.data.pid = toString root.data.pid) ≠ [] :=
      ne_nil_of_mem (mem_filter.2 ⟨isRoot, by simp⟩)
    rcases Option.isSome_iff_exists.1 (gather_isSome addRoot nonempty) with
      ⟨process, gathered⟩
    refine ⟨process, mem_objectValues_group_iff.2 ⟨_, gathered⟩, ?_⟩
    rw [Int.repr_injective (toString_processPid gathered)]
    exact pid_of_mem entry

/-- The process nodes have the totals of their samples with a call chain, and every
node has the duration of its own and of its children. -/
structure CountedOnce (handler : FileHandler) (isTopDown : Bool)
    (samples : List FileSample) : Prop where
  dur : ∀ process ∈ handler.freshCurrentCallChains isTopDown samples,
    process.data.dur = (((handler.chained samples).filter fun sample =>
      sample.pid = processPid process).map FileSample.dur).sum
  count : ∀ process ∈ handler.freshCurrentCallChains isTopDown samples,
    process.data.count = ((handler.chained samples).filter fun sample =>
      sample.pid = processPid process).length
  balanced : ∀ process ∈ handler.freshCurrentCallChains isTopDown samples,
    Balanced FileMerageBean.dur selfDur process

/-- The samples counted at a process are as many as its own, and take as long. -/
structure Attributed (handler : FileHandler) (isTopDown : Bool)
    (samples : List FileSample) (pid : Int) : Prop where
  dur : (((handler.chained samples).filter fun sample =>
    attributedPid handler isTopDown samples sample = pid).map FileSample.dur).sum =
    (((handler.chained samples).filter fun sample => sample.pid = pid).map FileSample.dur).sum
  count : ((handler.chained samples).filter fun sample =>
    attributedPid handler isTopDown samples sample = pid).length =
    ((handler.chained samples).filter fun sample => sample.pid = pid).length

theorem totals_of_mem (member : process ∈ handler.freshCurrentCallChains isTopDown samples) :
    process.data.dur = (((handler.chained samples).filter fun sample =>
      attributedPid handler isTopDown samples sample =
        processPid process).map FileSample.dur).sum ∧
      process.data.count = ((handler.chained samples).filter fun sample =>
        attributedPid handler isTopDown samples sample = processPid process).length := by
  rcases gather_addRoot (gather_of_mem_freshCurrentCallChains member) with
    ⟨_, dur, count, _⟩
  refine ⟨?_, ?_⟩
  · rw [dur]
    refine sum_roots_ofPid ?_ rfl _ _
    simp [merageCallChainSample]
  · have ones : ∀ list : List FileSample, (list.map fun _ => 1).sum = list.length := by simp
    rw [count, ← ones]
    refine sum_roots_ofPid ?_ rfl _ _
    simp [merageCallChainSample]

theorem balanced_iff (samples : List FileSample) :
    (∀ process ∈ handler.freshCurrentCallChains isTopDown samples,
      Balanced FileMerageBean.dur selfDur process) ↔
      ∀ key root, (handler.currentTreeMapData isTopDown samples).lookup key = some root →
        Balanced FileMerageBean.dur selfDur root := by
  have entryIff : ∀ key root,
    (handler.currentTreeMapData isTopDown samples).lookup key = some root ↔
      (key, root) ∈ handler.currentTreeMapData isTopDown samples :=
    fun _ _ => lookup_eq_some_iff_mem (nodup_currentTreeMapData samples)
  constructor
  · intro balanced key root isRoot
    have entry := (entryIff key root).1 isRoot
    have ofKey : key ∈ (handler.currentTreeMapData isTopDown samples).map Prod.fst :=
      mem_map.2 ⟨_, entry, rfl⟩
    rw [currentTreeMapData_eq, mem_keys_group] at ofKey
    rcases ofKey with ⟨sample, isSample, rfl⟩
    rcases exists_process_iff.2 ⟨sample, isSample, rfl⟩ with
      ⟨process, member, samePid⟩
    have children := (gather_addRoot (gather_of_mem_freshCurrentCallChains member)).1
    rcases balanced process member with ⟨_, below⟩
    refine below root ?_
    rw [MergeTree.children_node] at children
    rw [children, mem_filter, decide_eq_true_iff, samePid]
    refine ⟨?_, pid_of_mem entry⟩
    rw [roots, (perm_objectValues _).mem_iff]
    exact mem_map.2 ⟨_, entry, rfl⟩
  · intro balanced process member
    rcases gather_addRoot (gather_of_mem_freshCurrentCallChains member) with
      ⟨children, dur, _, noSelf⟩
    cases process with
    | node data ofProcess =>
      dsimp only [MergeTree.children_node, MergeTree.data_node] at children dur noSelf
      have balance : data.dur = data.selfDur + weight FileMerageBean.dur ofProcess := by
        rw [noSelf, zero_add]
        exact dur.trans (congrArg _ children.symm)
      refine .node balance ?_
      intro root isChild
      rw [children] at isChild
      have isRoot := mem_of_mem_filter isChild
      rw [roots, (perm_objectValues _).mem_iff, mem_map] at isRoot
      rcases isRoot with ⟨⟨key, value⟩, entry, rfl⟩
      exact balanced key value ((entryIff key value).2 entry)

/-- Samples are counted once just where those counted at the process of another
sample with the same root key make up for each other, and no sample with a
duration has a frame that matches two children. -/
theorem countedOnce_iff (handler : FileHandler) (isTopDown : Bool) (samples : List FileSample) :
    CountedOnce handler isTopDown samples ↔ (∀ sample ∈ handler.chained samples,
      Attributed handler isTopDown samples (attributedPid handler isTopDown samples sample)) ∧
      EachStep (handler.addSample isTopDown) (MergesSingly handler isTopDown) [] samples := by
  have steps : EachStep (handler.addSample isTopDown) (MergesSingly handler isTopDown) [] samples ↔
    ∀ process ∈ handler.freshCurrentCallChains isTopDown samples,
      Balanced FileMerageBean.dur selfDur process := by
    rw [balanced_iff]
    rcases balanced_or_overweight handler isTopDown samples with
      ⟨singly, balanced⟩ | ⟨notSingly, key, root, isRoot, overweight⟩
    · exact iff_of_true singly balanced
    · refine iff_of_false notSingly ?_
      intro balanced
      exact overweight.not_balanced (balanced key root isRoot)
  rw [steps]
  constructor
  · rintro ⟨dur, count, balanced⟩
    refine ⟨?_, balanced⟩
    intro sample member
    rcases exists_process_iff.2 ⟨sample, member, rfl⟩ with
      ⟨process, isProcess, samePid⟩
    have totals := totals_of_mem isProcess
    rw [← samePid]
    refine ⟨?_, ?_⟩
    · rw [← totals.1, dur process isProcess]
    · rw [← totals.2, count process isProcess]
  · rintro ⟨attributed, balanced⟩
    have attributedAt : ∀ process ∈ handler.freshCurrentCallChains isTopDown samples,
      Attributed handler isTopDown samples (processPid process) := by
      intro process isProcess
      rcases exists_process_iff.1 ⟨process, isProcess, rfl⟩ with
        ⟨sample, member, samePid⟩
      rw [← samePid]
      exact attributed sample member
    refine ⟨?_, ?_, balanced⟩
    · intro process isProcess
      rw [(totals_of_mem isProcess).1, (attributedAt process isProcess).dur]
    · intro process isProcess
      rw [(totals_of_mem isProcess).2, (attributedAt process isProcess).count]

def crossedFrames : FileHandler where
  currentDataType := .fileSystem
  eBpfCallChainsMap callChainId :=
    if callChainId = 1 then [⟨"0x1", some 10, some 1⟩]
    else if callChainId = 2 then [⟨"0x2", some 20, some 1⟩]
    else [⟨"0x1", some 20, some 1⟩]

def crossedSamples : List FileSample :=
  [⟨2, 1, 5, 7, 7, "main", "app", 0⟩, ⟨2, 2, 5, 7, 7, "main", "app", 1⟩,
    ⟨2, 3, 5, 7, 7, "main", "app", 2⟩]

/-- The duration of the third read is counted at two children of the thread. -/
theorem not_countedOnce_crossed : ¬ CountedOnce crossedFrames true crossedSamples := by
  rintro ⟨_, _, balanced⟩
  rw [balanced_iff] at balanced
  have ofRoot := balanced "2-17" ((crossedFrames.currentTreeMapData true crossedSamples).lookup
    "2-17" |>.getD (.node {} [])) (by rfl)
  have threads : ([15] : List Nat) = [20] := map_congr_left fun _ member => ofRoot.child member
  cases threads

end FileHandler

end SysAnalyzer.LogicWorker
