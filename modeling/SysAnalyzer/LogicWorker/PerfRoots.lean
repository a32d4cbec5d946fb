import SysAnalyzer.LogicWorker.PerfCallChains

/-!
# The roots of perf call trees

A root is made of the samples with its key alone, and has the name and the
process of one of them, which give the key again.  The node of a process has its
roots as they come.
-/

namespace SysAnalyzer.LogicWorker

open Foundation List Option
open PerfCallChainMerageData

namespace PerfCallChainMerageData

variable (sample : PerfCountSample) (data : PerfCallChainMerageData)
  (frame : PerfCallChain) (isEnd : Bool)

@[simp]
theorem named_dur : (data.named frame sample).dur = data.dur := by
  unfold named
  split_ifs <;> rfl

@[simp]
theorem named_selfDur : (data.named frame sample).selfDur = data.selfDur := by
  unfold named
  split_ifs <;> rfl

theorem merageCallChainSample_names :
    ((merageCallChainSample sample data frame isEnd).symbolName = frame.name ∧
      (merageCallChainSample sample data frame isEnd).pid = sample.pid) ∨
      data.symbolName ≠ "" ∧ (merageCallChainSample sample data frame isEnd).symbolName =
        data.symbolName ∧ (merageCallChainSample sample data frame isEnd).pid = data.pid := by
  unfold merageCallChainSample named
  by_cases unnamed : data.symbolName = ""
  · simp [unnamed]
  · simp [unnamed]

theorem named_merageCallChainSample :
    Named symbolName PerfCallChain.name isFrame {} (merageCallChainSample sample) where
  same_iff := by simp [isFrame]
  key_fresh := by
    intro frame isEnd
    simp [merageCallChainSample, named]
  key_absorb := by
    intro data frame isEnd sameName
    rcases merageCallChainSample_names sample data frame isEnd with
      isNew | ⟨_, isOld, _⟩
    · exact isNew.1
    · rw [isOld, sameName]

theorem adds_merageCallChainSample :
    Adds {} (merageCallChainSample sample) dur selfDur sample.count where
  total_fresh := rfl
  own_fresh := rfl
  total_absorb := by simp [merageCallChainSample]
  own_absorb := by
    intro data frame isEnd
    cases isEnd <;> simp [merageCallChainSample]

end PerfCallChainMerageData

namespace PerfWorker

variable {worker : PerfWorker} {isTopDown : Bool}

/-- What some samples make of one root, a new one where there are none. -/
def rootOf (worker : PerfWorker) (isTopDown : Bool) (samples : List PerfCountSample) : PerfTree :=
  (gather (worker.mergeSample isTopDown) samples).getD (.node {} [])

theorem rootOf_concat (samples : List PerfCountSample) (sample : PerfCountSample) :
    worker.rootOf isTopDown (samples ++ [sample]) = worker.mergeSample isTopDown sample
      (gather (worker.mergeSample isTopDown) samples) := by
  rw [rootOf, gather_concat]
  rfl

variable {samples : List PerfCountSample} {root : PerfTree}

theorem exists_sample_of_root (chained : ∀ sample ∈ samples, worker.hasCallChain sample = true)
    (gathered : gather (worker.mergeSample isTopDown) samples = some root) :
    ∃ sample ∈ samples, root.data.symbolName = (worker.topFrame isTopDown sample).name ∧
      root.data.pid = sample.pid := by
  induction samples using reverseRecOn generalizing root with
  | nil => cases gathered
  | append_singleton samples sample induction =>
    rw [gather_concat, mergeSample_eq (chained sample (by simp)), some.injEq] at gathered
    subst gathered
    rcases merageCallChainSample_names sample ((gather (worker.mergeSample isTopDown) samples).getD
      (.node {} [])).data
      (worker.topFrame isTopDown sample) false with
      isNew | ⟨isNamed, sameName, samePid⟩
    · exact ⟨sample, by simp, isNew⟩
    · rw [MergeTree.data_node, sameName, samePid]
      cases earlier : gather (worker.mergeSample isTopDown) samples with
      | none =>
        rw [earlier] at isNamed
        exact absurd rfl isNamed
      | some root =>
        rcases induction (fun other member => chained other (by simp [member]))
          earlier with ⟨other, member, names⟩
        exact ⟨other, by simp [member], names⟩

def chained (worker : PerfWorker) (samples : List PerfCountSample) : List PerfCountSample :=
  samples.filter worker.hasCallChain

theorem hasCallChain_of_mem {sample : PerfCountSample} (member : sample ∈ worker.chained samples) :
    worker.hasCallChain sample = true :=
  (mem_filter.1 member).2

theorem nodup_currentTreeMapData (samples : List PerfCountSample) :
    ((worker.currentTreeMapData isTopDown samples).map Prod.fst).Nodup := by
  rw [currentTreeMapData_eq]
  exact nodup_keys_group _ _ _

theorem mem_currentTreeMapData_iff {key : String} :
    (key, root) ∈ worker.currentTreeMapData isTopDown samples ↔
      gather (worker.mergeSample isTopDown) ((worker.chained samples).filter fun sample =>
        worker.rootKey isTopDown sample = key) = some root := by
  rw [currentTreeMapData_eq]
  exact mem_group_iff _ _

section

variable {key : String}
  (member : (key, root) ∈ worker.currentTreeMapData isTopDown samples)
include member

theorem exists_sample_of_mem :
    ∃ sample ∈ worker.chained samples, worker.rootKey isTopDown sample = key ∧
      root.data.symbolName = (worker.topFrame isTopDown sample).name ∧
      root.data.pid = sample.pid := by
  rcases exists_sample_of_root (fun sample ofKey =>
    hasCallChain_of_mem (mem_of_mem_filter ofKey))
    (mem_currentTreeMapData_iff.1 member) with ⟨sample, ofKey, names⟩
  rw [mem_filter, decide_eq_true_iff] at ofKey
  exact ⟨sample, ofKey.1, ofKey.2, names⟩

theorem key_of_mem : root.data.symbolName ++ toString root.data.pid = key := by
  rcases exists_sample_of_mem member with ⟨sample, _, sameKey, name, pid⟩
  rw [name, pid, ← sameKey, rootKey]

end

theorem exists_root_of_mem (isTopDown : Bool) {sample : PerfCountSample}
    (member : sample ∈ worker.chained samples) : ∃ root, (worker.rootKey isTopDown sample, root) ∈
      worker.currentTreeMapData isTopDown samples := by
  have nonempty : (worker.chained samples).filter (fun other =>
    worker.rootKey isTopDown other = worker.rootKey isTopDown sample) ≠ [] :=
    ne_nil_of_mem (mem_filter.2 ⟨member, by simp⟩)
  rcases isSome_iff_exists.1 (gather_isSome (worker.mergeSample isTopDown) nonempty) with
    ⟨root, gathered⟩
  exact ⟨root, mem_currentTreeMapData_iff.2 gathered⟩

theorem mem_roots_iff : root ∈ worker.roots isTopDown samples ↔
    ∃ key, (key, root) ∈ worker.currentTreeMapData isTopDown samples := by
  rw [roots, (perm_objectValues _).mem_iff]
  simp

theorem gather_addRoot {roots : List PerfTree} {process : PerfTree}
    (gathered : gather worker.addRoot roots = some process) :
    process.children = roots ∧ process.data.dur = weight dur roots ∧ process.data.selfDur = 0 := by
  induction roots using reverseRecOn generalizing process with
  | nil => cases gathered
  | append_singleton roots root induction =>
    rw [gather_concat, some.injEq] at gathered
    subst gathered
    cases earlier : gather worker.addRoot roots with
    | none =>
      have none : roots = [] := by
        by_contra nonempty
        have some := gather_isSome worker.addRoot nonempty
        rw [earlier] at some
        cases some
      subst none
      exact ⟨rfl, by simp [addRoot, weight], rfl⟩
    | some process =>
      rcases process with ⟨data, children⟩
      rcases induction earlier with ⟨sameChildren, sameDur, noSelf⟩
      dsimp only [MergeTree.children_node, MergeTree.data_node] at *
      refine ⟨?_, ?_, noSelf⟩
      · rw [addRoot, sameChildren]
        rfl
      · rw [weight_append, ← sameDur]
        simp [addRoot, weight]

theorem mem_freshPerfCallchains_iff {process : PerfTree} :
    process ∈ worker.freshPerfCallchains isTopDown samples ↔ ∃ key, gather worker.addRoot
      ((worker.roots isTopDown samples).filter fun root =>
        toString root.data.pid = key) = some process :=
  mem_objectValues_group_iff

theorem freshPerfCallchains_of_pid {pid : Int}
    (ofPid : ∀ root ∈ worker.roots isTopDown samples, root.data.pid = pid) :
    worker.freshPerfCallchains isTopDown samples =
      (gather worker.addRoot (worker.roots isTopDown samples)).toList := by
  unfold freshPerfCallchains rootMerageMap
  rw [group_of_forall_eq _ _ fun root member => by rw [ofPid root member]]
  cases gather worker.addRoot (worker.roots isTopDown samples) with
  | none => rfl
  | some process => exact objectValues_singleton _

end PerfWorker

end SysAnalyzer.LogicWorker
