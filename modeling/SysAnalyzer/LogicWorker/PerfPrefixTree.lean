import SysAnalyzer.LogicWorker.PerfRoots

/-!
# Perf call trees as prefix trees

The tree of a process has a node for every beginning of a call chain, with the
counts of the samples that begin so, and as its own part those of the samples
that end there.
-/

namespace SysAnalyzer.LogicWorker

open Foundation List
open PerfCallChainMerageData

namespace PerfWorker

variable {worker : PerfWorker} {isTopDown : Bool}

def chainNames (worker : PerfWorker) (isTopDown : Bool) (sample : PerfCountSample) : List String :=
  (directed isTopDown (worker.perfCallChains sample)).map PerfCallChain.name

def counted (samples : List PerfCountSample) (property : PerfCountSample → Bool) : Nat :=
  ((samples.filter property).map PerfCountSample.count).sum

theorem counted_concat (samples : List PerfCountSample)
    (sample : PerfCountSample) (property : PerfCountSample → Bool) :
    counted (samples ++ [sample]) property = counted samples property +
      if property sample then sample.count else 0 := by
  unfold counted
  rw [filter_append, map_append, sum_append]
  cases isKept : property sample <;> simp [isKept]

theorem counted_congr {samples : List PerfCountSample} {property other : PerfCountSample → Bool}
    (same : ∀ sample ∈ samples, property sample = other sample) :
    counted samples property = counted samples other := by
  unfold counted
  rw [filter_congr same]

theorem counted_filter (samples : List PerfCountSample) (keep property : PerfCountSample → Bool) :
    counted (samples.filter keep) property =
      counted samples fun sample => keep sample && property sample := by
  unfold counted
  rw [filter_filter]
  simp only [Bool.and_comm]

def namesBelow (worker : PerfWorker) (isTopDown : Bool) (sample : PerfCountSample) : List String :=
  (directed isTopDown (worker.perfCallChains sample)).tail.map PerfCallChain.name

variable {sample : PerfCountSample}

theorem chainNames_eq (hasChain : worker.hasCallChain sample = true) :
    worker.chainNames isTopDown sample = (worker.topFrame isTopDown sample).name ::
      worker.namesBelow isTopDown sample := by
  rcases directed_perfCallChains isTopDown hasChain with ⟨second, rest, chain⟩
  unfold chainNames namesBelow
  rw [chain]
  rfl

/-- What the tree of a root has of its samples. -/
structure PrefixTree (worker : PerfWorker) (isTopDown : Bool)
    (samples : List PerfCountSample) (tree : PerfTree) : Prop where
  keyed : Keyed symbolName tree.children
  balanced : Balanced dur selfDur tree
  reached : ∀ path, (nodeAt symbolName path tree).isSome =
    (decide (path = []) || samples.any fun sample =>
      decide (path <+: worker.namesBelow isTopDown sample))
  total : ∀ path, numberAt symbolName dur path tree = counted samples fun sample =>
    decide (path <+: worker.namesBelow isTopDown sample)
  own : ∀ path, numberAt symbolName selfDur path tree = counted samples fun sample =>
    decide (path = worker.namesBelow isTopDown sample)

theorem prefixTree_nil (worker : PerfWorker) (isTopDown : Bool) :
    PrefixTree worker isTopDown [] (.node {} []) where
  keyed := keyed_nil
  balanced := .node rfl (by simp)
  reached := by
    intro path
    cases path <;> rfl
  total := by
    intro path
    cases path <;> rfl
  own := by
    intro path
    cases path <;> rfl

theorem PrefixTree.mergeSample {samples : List PerfCountSample} {root : Option PerfTree}
    (tree : PrefixTree worker isTopDown samples (root.getD (.node {} [])))
    (hasChain : worker.hasCallChain sample = true) :
    PrefixTree worker isTopDown (samples ++ [sample])
      (worker.mergeSample isTopDown sample root) := by
  rw [mergeSample_eq hasChain]
  rcases directed_perfCallChains isTopDown hasChain with ⟨second, rest, chain⟩
  have more : (directed isTopDown (worker.perfCallChains sample)).tail.isEmpty = false := by
    rw [chain]
    rfl
  have names := named_merageCallChainSample sample
  have adds := adds_merageCallChainSample sample
  have takes : Takes dur selfDur sample.count
    (directed isTopDown (worker.perfCallChains sample)).tail.isEmpty
    (root.getD (.node {} [])).data
    (merageCallChainSample sample (root.getD (.node {} [])).data
      (worker.topFrame isTopDown sample) false) := by
    rw [more]
    exact takes_absorb adds _ _ _
  have whole : MergeTree.node (root.getD (.node {} [])).data
    (root.getD (.node {} [])).children = root.getD (.node {} []) := by
    cases root.getD (.node {} []) with
    | node _ _ => rfl
  refine
    { keyed := ?_
      balanced := ?_
      reached := ?_
      total := ?_
      own := ?_ }
  · exact tree.keyed.mergeChain names _
  · have balanced := tree.balanced
    rw [← whole] at balanced
    exact balanced.descend adds (.inr (tree.keyed.singleMatch names _)) takes
  · intro path
    rw [isSome_nodeAt_mergeChain names (root.getD (.node {} [])).data _ path
      tree.keyed, whole, tree.reached, any_append, Bool.or_assoc]
    simp [namesBelow]
  · intro path
    rw [numberAt_total_mergeChain names adds.total_fresh adds.total_absorb path
      tree.keyed takes.takesTotal, whole,
      tree.total, counted_concat]
    simp [namesBelow]
  · intro path
    rw [numberAt_own_mergeChain names adds path tree.keyed takes, whole, tree.own, counted_concat]
    simp [namesBelow]

theorem prefixTree_rootOf (isTopDown : Bool) {samples : List PerfCountSample}
    (hasChains : ∀ sample ∈ samples, worker.hasCallChain sample = true) :
    PrefixTree worker isTopDown samples (worker.rootOf isTopDown samples) := by
  induction samples using reverseRecOn with
  | nil => exact prefixTree_nil worker isTopDown
  | append_singleton samples sample induction =>
    rw [rootOf_concat]
    refine PrefixTree.mergeSample (induction ?_) (hasChains sample (by simp))
    intro other member
    exact hasChains other (by simp [member])

theorem prefixTree_ofName (isTopDown : Bool) {samples : List PerfCountSample}
    (hasChains : ∀ sample ∈ samples, worker.hasCallChain sample = true) (name : String) :
    PrefixTree worker isTopDown (samples.filter fun sample =>
      (worker.topFrame isTopDown sample).name = name)
      (worker.rootOf isTopDown (samples.filter fun sample =>
        (worker.topFrame isTopDown sample).name = name)) :=
  prefixTree_rootOf isTopDown fun sample member => hasChains sample (mem_of_mem_filter member)

theorem withKey_roots {samples : List PerfCountSample} {pid : Int}
    (ofPid : ∀ sample ∈ samples, sample.pid = pid)
    (hasChains : ∀ sample ∈ samples, worker.hasCallChain sample = true) (name : String) :
    withKey symbolName name (worker.roots isTopDown samples) =
      gather (worker.mergeSample isTopDown) (samples.filter fun sample =>
        (worker.topFrame isTopDown sample).name = name) := by
  have all : worker.chained samples = samples := filter_eq_self.2 hasChains
  have keyIff : ∀ sample ∈ samples, worker.rootKey isTopDown sample = name ++ toString pid ↔
    (worker.topFrame isTopDown sample).name = name := by
    intro sample member
    rw [rootKey, ofPid sample member]
    exact String.append_left_inj _
  have ofKey : (worker.chained samples).filter (fun sample =>
    worker.rootKey isTopDown sample = name ++ toString pid) =
    samples.filter fun sample =>
      (worker.topFrame isTopDown sample).name = name := by
    rw [all]
    refine filter_congr ?_
    intro sample member
    rw [decide_eq_decide]
    exact keyIff sample member
  have rootIff : ∀ root, root ∈ worker.roots isTopDown samples ∧ root.data.symbolName = name ↔
    gather (worker.mergeSample isTopDown) (samples.filter fun sample =>
      (worker.topFrame isTopDown sample).name = name) = some root := by
    intro root
    rw [← ofKey, ← mem_currentTreeMapData_iff, mem_roots_iff]
    have samePid : ∀ key, (key, root) ∈ worker.currentTreeMapData isTopDown samples →
      root.data.pid = pid := by
      intro key entry
      rcases exists_sample_of_mem entry with ⟨sample, member, _, _, same⟩
      rw [all] at member
      rw [same, ofPid sample member]
    constructor
    · rintro ⟨⟨key, entry⟩, rfl⟩
      rw [← samePid key entry, key_of_mem entry]
      exact entry
    · intro entry
      refine ⟨⟨_, entry⟩, ?_⟩
      have key := key_of_mem entry
      rw [samePid _ entry] at key
      exact (String.append_left_inj _).1 key
  ext1 root
  rw [← rootIff root]
  constructor
  · intro found
    exact withKey_eq_some found
  · rintro ⟨member, rfl⟩
    cases found : withKey symbolName root.data.symbolName (worker.roots isTopDown samples) with
    | none =>
      have absent := find?_eq_none.1 found root member
      simp at absent
    | some other =>
      have ofOther := (rootIff other).1 (withKey_eq_some found)
      rw [(rootIff root).1 ⟨member, rfl⟩] at ofOther
      exact ofOther.symm

theorem prefixTree_of_mem_roots {samples : List PerfCountSample}
    {root : PerfTree} (member : root ∈ worker.roots isTopDown samples) :
    ∃ ofRoot, PrefixTree worker isTopDown ofRoot root := by
  rcases mem_roots_iff.1 member with ⟨key, entry⟩
  have gathered := mem_currentTreeMapData_iff.1 entry
  have hasChains : ∀ sample ∈ (worker.chained samples).filter (fun sample =>
    worker.rootKey isTopDown sample = key),
    worker.hasCallChain sample = true :=
    fun sample ofKey => hasCallChain_of_mem (mem_of_mem_filter ofKey)
  have tree := prefixTree_rootOf isTopDown hasChains
  rw [rootOf, gathered] at tree
  exact ⟨_, tree⟩

theorem weight_roots {samples : List PerfCountSample}
    (hasChains : ∀ sample ∈ samples, worker.hasCallChain sample = true) :
    weight dur (worker.roots isTopDown samples) = (samples.map PerfCountSample.count).sum := by
  have all : samples.filter worker.hasCallChain = samples := filter_eq_self.2 hasChains
  have adds : ∀ sample ∈ samples, ∀ root, (worker.mergeSample isTopDown sample root).data.dur =
    ((root.map fun tree => tree.data.dur).getD 0) + sample.count := by
    intro sample member root
    rw [mergeSample_eq (hasChains sample member), MergeTree.data_node,
      (adds_merageCallChainSample sample).total_absorb]
    cases root <;> rfl
  have sum := sum_group (worker.rootKey isTopDown)
    (worker.mergeSample isTopDown) (fun tree => tree.data.dur) adds
  rw [← sum, roots, weight_perm (perm_objectValues _), currentTreeMapData_eq, all, weight, map_map]
  rfl

theorem numberAt_process {samples : List PerfCountSample} {pid : Int}
    (ofPid : ∀ sample ∈ samples, sample.pid = pid)
    (hasChains : ∀ sample ∈ samples, worker.hasCallChain sample = true)
    {number : PerfCallChainMerageData → Nat} (zero : number {} = 0) {process : PerfTree}
    (children : process.children = worker.roots isTopDown samples)
    (name : String) (path : List String) : numberAt symbolName number (name :: path) process =
      numberAt symbolName number path (worker.rootOf isTopDown (samples.filter fun sample =>
        (worker.topFrame isTopDown sample).name = name)) := by
  unfold numberAt
  rw [nodeAt, children, withKey_roots ofPid hasChains, rootOf]
  cases gather (worker.mergeSample isTopDown) (samples.filter fun sample =>
    (worker.topFrame isTopDown sample).name = name) with
  | some root => rfl
  | none =>
    cases path with
    | nil => exact zero.symm
    | cons _ _ => rfl

theorem cons_prefix_chainNames_iff (hasChain : worker.hasCallChain sample = true)
    (name : String) (path : List String) : name :: path <+: worker.chainNames isTopDown sample ↔
      (worker.topFrame isTopDown sample).name = name ∧
        path <+: worker.namesBelow isTopDown sample := by
  rw [chainNames_eq hasChain, cons_prefix_cons, eq_comm]

theorem balanced_process {samples : List PerfCountSample} {process : PerfTree}
    (gathered : gather worker.addRoot (worker.roots isTopDown samples) = some process) :
    Balanced dur selfDur process := by
  rcases gather_addRoot gathered with ⟨children, total, noSelf⟩
  cases process with
  | node data roots =>
    dsimp only [MergeTree.children_node, MergeTree.data_node] at *
    refine .node ?_ ?_
    · rw [total, noSelf, children, zero_add]
    · intro root member
      rw [children] at member
      rcases prefixTree_of_mem_roots member with ⟨_, tree⟩
      exact tree.balanced

section Process

variable {samples : List PerfCountSample} {pid : Int} {process : PerfTree}
  (ofPid : ∀ sample ∈ samples, sample.pid = pid)
  (hasChains : ∀ sample ∈ samples, worker.hasCallChain sample = true)
  (gathered : gather worker.addRoot (worker.roots isTopDown samples) = some process)

include ofPid hasChains gathered

theorem total_process (path : List String) :
    numberAt symbolName dur path process = counted samples fun sample =>
      decide (path <+: worker.chainNames isTopDown sample) := by
  rcases gather_addRoot gathered with ⟨children, total, _⟩
  cases path with
  | nil =>
    change process.data.dur = _
    rw [total, weight_roots hasChains]
    simp [counted]
  | cons name path =>
    have tree := prefixTree_ofName isTopDown hasChains name
    rw [numberAt_process ofPid hasChains rfl children, tree.total, counted_filter]
    refine counted_congr ?_
    intro sample member
    rw [← Bool.decide_and, decide_eq_decide]
    exact (cons_prefix_chainNames_iff (hasChains sample member) _ _).symm

theorem own_process (path : List String) :
    numberAt symbolName selfDur path process = counted samples fun sample =>
      decide (path = worker.chainNames isTopDown sample) := by
  rcases gather_addRoot gathered with ⟨children, _, noSelf⟩
  cases path with
  | nil =>
    change process.data.selfDur = _
    rw [noSelf]
    have none : ∀ sample ∈ samples, decide ([] = worker.chainNames isTopDown sample) = false := by
      intro sample member
      rw [chainNames_eq (hasChains sample member)]
      rfl
    rw [counted_congr none]
    simp [counted]
  | cons name path =>
    have tree := prefixTree_ofName isTopDown hasChains name
    rw [numberAt_process ofPid hasChains rfl children, tree.own, counted_filter]
    refine counted_congr ?_
    intro sample member
    rw [chainNames_eq (hasChains sample member), ← Bool.decide_and,
      decide_eq_decide, List.cons.injEq, eq_comm (a := name)]

theorem reached_process (nonempty : samples ≠ []) (path : List String) :
    (nodeAt symbolName path process).isSome = true ↔
      ∃ sample ∈ samples, path <+: worker.chainNames isTopDown sample := by
  rcases gather_addRoot gathered with ⟨children, _, _⟩
  cases path with
  | nil =>
    rcases exists_mem_of_ne_nil samples nonempty with ⟨sample, member⟩
    simp only [nodeAt, Option.isSome_some, true_iff]
    exact ⟨sample, member, nil_prefix⟩
  | cons name path =>
    have iff : ∀ sample ∈ samples, (name :: path <+: worker.chainNames isTopDown sample ↔
      (worker.topFrame isTopDown sample).name = name ∧
        path <+: worker.namesBelow isTopDown sample) :=
      fun sample member => cons_prefix_chainNames_iff (hasChains sample member) name path
    rw [nodeAt, children, withKey_roots ofPid hasChains]
    have tree := prefixTree_ofName isTopDown hasChains name
    unfold rootOf at tree
    cases ofName : gather (worker.mergeSample isTopDown) (samples.filter fun sample =>
      (worker.topFrame isTopDown sample).name = name) with
    | none =>
      simp only [Option.isSome_none, Bool.false_eq_true, false_iff]
      rintro ⟨sample, member, begins⟩
      have among : sample ∈ samples.filter fun sample =>
        (worker.topFrame isTopDown sample).name = name :=
        mem_filter.2 ⟨member, by simpa using ((iff sample member).1 begins).1⟩
      have isSome := gather_isSome (worker.mergeSample isTopDown) (ne_nil_of_mem among)
      rw [ofName] at isSome
      cases isSome
    | some root =>
      rw [ofName] at tree
      have reached := tree.reached path
      dsimp only at reached ⊢
      rw [Option.getD_some] at reached
      rw [reached, Bool.or_eq_true, any_eq_true, decide_eq_true_iff]
      constructor
      · rintro (rfl | ⟨sample, among, begins⟩)
        · have someSample : samples.filter (fun sample =>
            (worker.topFrame isTopDown sample).name = name) ≠ [] := by
            intro none
            rw [none] at ofName
            cases ofName
          rcases exists_mem_of_ne_nil _ someSample with
            ⟨sample, among⟩
          rw [mem_filter, decide_eq_true_iff] at among
          exact ⟨sample, among.1, (iff sample among.1).2 ⟨among.2, nil_prefix⟩⟩
        · rw [mem_filter, decide_eq_true_iff] at among
          exact ⟨sample, among.1, (iff sample among.1).2 ⟨among.2, by simpa using begins⟩⟩
      · rintro ⟨sample, member, begins⟩
        rcases (iff sample member).1 begins with ⟨isName, below⟩
        exact .inr ⟨sample, mem_filter.2 ⟨member, by simpa using isName⟩, by simpa using below⟩

end Process

/-- For the samples of one process, each with a call chain, there is one node of a
process.  A path of names reaches a node below it where a chain begins with the
path.  The duration of the node is the count of the samples whose chain does so,
its own part that of the samples whose chain is the path, and the duration is
the own part and those of the children. -/
theorem freshPerfCallchains_prefixTree (worker : PerfWorker)
    (isTopDown : Bool) (samples : List PerfCountSample) (pid : Int)
    (ofPid : ∀ sample ∈ samples, sample.pid = pid)
    (hasChains : ∀ sample ∈ samples, worker.hasCallChain sample = true) (nonempty : samples ≠ []) :
    ∃ process, worker.freshPerfCallchains isTopDown samples = [process] ∧
      process.data.dur = (samples.map PerfCountSample.count).sum ∧
      ∀ path : List String, ((nodeAt symbolName path process).isSome = true ↔
        ∃ sample ∈ samples, path <+: worker.chainNames isTopDown sample) ∧
        ∀ node, nodeAt symbolName path process = some node → node.data.dur =
          counted samples (fun sample =>
            decide (path <+: worker.chainNames isTopDown sample)) ∧
          node.data.selfDur = counted samples (fun sample =>
            decide (path = worker.chainNames isTopDown sample)) ∧
          node.data.dur = node.data.selfDur + weight dur node.children := by
  have someRoot : worker.roots isTopDown samples ≠ [] := by
    rcases exists_mem_of_ne_nil samples nonempty with ⟨sample, member⟩
    have isChained : sample ∈ worker.chained samples :=
      mem_filter.2 ⟨member, hasChains sample member⟩
    rcases exists_root_of_mem isTopDown isChained with ⟨root, entry⟩
    exact ne_nil_of_mem (mem_roots_iff.2 ⟨_, entry⟩)
  rcases Option.isSome_iff_exists.1 (gather_isSome worker.addRoot someRoot) with
    ⟨process, gathered⟩
  have total := total_process ofPid hasChains gathered
  have own := own_process ofPid hasChains gathered
  refine ⟨process, ?_, ?_, ?_⟩
  · have rootPid : ∀ root ∈ worker.roots isTopDown samples, root.data.pid = pid := by
      intro root member
      rcases mem_roots_iff.1 member with ⟨key, entry⟩
      rcases exists_sample_of_mem entry with ⟨sample, isChained, _, _, same⟩
      rw [same, ofPid sample (mem_of_mem_filter isChained)]
    rw [freshPerfCallchains_of_pid rootPid, gathered]
    rfl
  · rw [(gather_addRoot gathered).2.1, weight_roots hasChains]
  · intro path
    refine ⟨reached_process ofPid hasChains gathered nonempty path, ?_⟩
    intro node isNode
    refine ⟨?_, ?_, ?_⟩
    · rw [← total path, numberAt, isNode]
      rfl
    · rw [← own path, numberAt, isNode]
      rfl
    · exact (balanced_process gathered).nodeAt isNode

def twoFrames : PerfWorker where
  threadData _ := ⟨"main", "app"⟩
  callChainData sampleId :=
    if sampleId = 1 then [{ name := "run" }, { name := "read" }]
    else [{ name := "run" }]

def twoSamples : List PerfCountSample := [⟨1, 7, 3, "R", 7, [10]⟩, ⟨2, 7, 5, "R", 7, [20]⟩]

theorem freshPerfCallchains_twoSamples :
    ∃ process, twoFrames.freshPerfCallchains true twoSamples = [process] ∧ process.data.dur = 8 ∧
      ∀ node, nodeAt symbolName ["main", "R", "run"] process = some node →
        node.data.dur = 8 ∧ node.data.selfDur = 5 := by
  rcases freshPerfCallchains_prefixTree twoFrames true twoSamples 7
    (by decide) (by decide) (by decide) with
    ⟨process, single, total, nodes⟩
  refine ⟨process, single, total, ?_⟩
  intro node isNode
  rcases (nodes ["main", "R", "run"]).2 node isNode with ⟨dur, own, _⟩
  exact ⟨dur, own⟩

end PerfWorker

end SysAnalyzer.LogicWorker
