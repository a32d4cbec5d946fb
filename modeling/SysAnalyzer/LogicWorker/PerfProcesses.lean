import SysAnalyzer.LogicWorker.PerfRoots

/-!
# Processes in perf call trees

The key of a root is a name with the digits of a process behind it, and nothing
between them, so the thread `a1` of process 2 and the thread `a` of process 12
share a root.  Processes are kept apart just where no two samples of different
processes give one key.
-/

namespace SysAnalyzer.LogicWorker

open Foundation List
open PerfCallChainMerageData

namespace PerfWorker

variable {worker : PerfWorker} {isTopDown : Bool}

/-- The process that a node stands for, as its first root has it. -/
def processPid (process : PerfTree) : Int :=
  (process.children.head?.map fun root => root.data.pid).getD 0

def ofPid (samples : List PerfCountSample) (pid : Int) : List PerfCountSample :=
  samples.filter fun sample => sample.pid = pid

/-- There is one node for each process that has a sample with a call chain, and it
is the node that the samples of the process alone give. -/
structure ProcessesApart (worker : PerfWorker) (isTopDown : Bool)
    (samples : List PerfCountSample) : Prop where
  distinct : ((worker.freshPerfCallchains isTopDown samples).map processPid).Nodup
  complete : ∀ pid, pid ∈ (worker.freshPerfCallchains isTopDown samples).map processPid ↔
    ∃ sample ∈ worker.chained samples, sample.pid = pid
  alone : ∀ process ∈ worker.freshPerfCallchains isTopDown samples,
    worker.freshPerfCallchains isTopDown (ofPid samples (processPid process)) = [process]

def KeysApart (worker : PerfWorker) (isTopDown : Bool) (samples : List PerfCountSample) : Prop :=
  ∀ first ∈ worker.chained samples, ∀ second ∈ worker.chained samples,
    worker.rootKey isTopDown first = worker.rootKey isTopDown second → first.pid = second.pid

theorem chained_ofPid (samples : List PerfCountSample) (pid : Int) :
    worker.chained (ofPid samples pid) = ofPid (worker.chained samples) pid := by
  unfold chained ofPid
  rw [filter_filter, filter_filter]
  congr 1
  ext1 sample
  exact Bool.and_comm _ _

variable {samples : List PerfCountSample}

theorem pid_of_mem_roots_ofPid {pid : Int} {root : PerfTree}
    (member : root ∈ worker.roots isTopDown (ofPid samples pid)) : root.data.pid = pid := by
  rcases mem_roots_iff.1 member with ⟨key, entry⟩
  rcases exists_sample_of_mem entry with ⟨sample, ofSamples, _, _, samePid⟩
  rw [chained_ofPid, ofPid, mem_filter, decide_eq_true_iff] at ofSamples
  rw [samePid, ofSamples.2]

variable {process : PerfTree}

theorem children_of_alone {pid : Int} (alone :
    worker.freshPerfCallchains isTopDown (ofPid samples pid) = [process]) :
    process.children = worker.roots isTopDown (ofPid samples pid) := by
  rw [freshPerfCallchains_of_pid fun root => pid_of_mem_roots_ofPid] at alone
  refine (@gather_addRoot worker _ _ ?_).1
  cases gathered : gather worker.addRoot (worker.roots isTopDown (ofPid samples pid)) with
  | none =>
    rw [gathered] at alone
    cases alone
  | some other =>
    rw [gathered] at alone
    rw [List.singleton_inj.1 alone]

theorem toString_processPid {roots : List PerfTree} {key : String}
    (gathered : gather worker.addRoot (roots.filter fun root => toString root.data.pid = key) =
      some process) : toString (processPid process) = key := by
  rcases exists_head_of_gather _ _ gathered with ⟨first, rest, ofKey, _, isKey⟩
  unfold processPid
  rw [(gather_addRoot gathered).1, ofKey]
  exact isKey

theorem gather_of_mem_freshPerfCallchains
    (member : process ∈ worker.freshPerfCallchains isTopDown samples) :
    gather worker.addRoot ((worker.roots isTopDown samples).filter fun root =>
      root.data.pid = processPid process) = some process := by
  rcases mem_freshPerfCallchains_iff.1 member with ⟨key, gathered⟩
  rw [← gathered]
  congr 1
  refine filter_congr ?_
  intro root _
  rw [← toString_processPid gathered, decide_eq_decide]
  exact ⟨fun same => by rw [same], fun same => Int.repr_injective same⟩

theorem mem_map_processPid_iff {pid : Int} :
    pid ∈ (worker.freshPerfCallchains isTopDown samples).map processPid ↔
      ∃ root ∈ worker.roots isTopDown samples, root.data.pid = pid := by
  rw [mem_map]
  constructor
  · rintro ⟨process, member, rfl⟩
    have gathered := gather_of_mem_freshPerfCallchains member
    cases ofPid : (worker.roots isTopDown samples).filter fun root =>
      root.data.pid = processPid process with
    | nil =>
      rw [ofPid] at gathered
      cases gathered
    | cons root rest =>
      have isFirst : root ∈ (worker.roots isTopDown samples).filter
        fun root => root.data.pid = processPid process := by
        rw [ofPid]
        exact mem_cons_self
      rw [mem_filter, decide_eq_true_iff] at isFirst
      exact ⟨root, isFirst⟩
  · rintro ⟨root, member, rfl⟩
    have nonempty : (worker.roots isTopDown samples).filter (fun other =>
      toString other.data.pid = toString root.data.pid) ≠ [] :=
      ne_nil_of_mem (List.mem_filter.2 ⟨member, by simp⟩)
    rcases Option.isSome_iff_exists.1
      (gather_isSome worker.addRoot nonempty) with ⟨process, gathered⟩
    refine ⟨process, mem_freshPerfCallchains_iff.2 ⟨_, gathered⟩, ?_⟩
    exact Int.repr_injective (toString_processPid gathered)

theorem nodup_processPid (samples : List PerfCountSample) :
    ((worker.freshPerfCallchains isTopDown samples).map processPid).Nodup := by
  have keys := nodup_keys_group (fun root : PerfTree => toString root.data.pid) worker.addRoot
    (worker.roots isTopDown samples)
  have ofKeys : (worker.rootMerageMap (worker.roots isTopDown samples)).map Prod.fst =
    ((worker.rootMerageMap (worker.roots isTopDown samples)).map
      fun entry => processPid entry.2).map toString := by
    rw [map_map]
    refine map_congr_left ?_
    rintro ⟨key, process⟩ member
    exact (toString_processPid ((mem_group_iff _ _).1 member)).symm
  unfold freshPerfCallchains
  rw [((perm_objectValues _).map processPid).nodup_iff, map_map]
  unfold rootMerageMap at ofKeys
  rw [ofKeys] at keys
  exact keys.of_map _

theorem filter_roots_of_keysApart (apart : KeysApart worker isTopDown samples) (pid : Int) :
    (worker.roots isTopDown samples).filter (fun root => root.data.pid = pid) =
      worker.roots isTopDown (ofPid samples pid) := by
  classical
  let keep : String → Bool := fun key =>
    decide (∃ sample ∈ worker.chained samples,
      worker.rootKey isTopDown sample = key ∧ sample.pid = pid)
  have keepKey : ∀ sample ∈ worker.chained samples,
    keep (worker.rootKey isTopDown sample) = decide (sample.pid = pid) := by
    intro sample member
    rw [Bool.eq_iff_iff, decide_eq_true_iff, decide_eq_true_iff]
    constructor
    · rintro ⟨other, ofSamples, sameKey, samePid⟩
      rw [← apart other ofSamples sample member sameKey, samePid]
    · intro samePid
      exact ⟨sample, member, rfl, samePid⟩
  have keepRoot : ∀ entry ∈ worker.currentTreeMapData isTopDown samples,
    decide (entry.2.data.pid = pid) = keep entry.1 := by
    rintro ⟨key, root⟩ member
    rcases exists_sample_of_mem member with
      ⟨sample, ofSamples, rfl, _, samePid⟩
    rw [keepKey sample ofSamples, samePid]
  have alone : worker.currentTreeMapData isTopDown (ofPid samples pid) =
    (worker.currentTreeMapData isTopDown samples).filter fun entry =>
      keep entry.1 := by
    rw [currentTreeMapData_eq, currentTreeMapData_eq, filter_group]
    congr 1
    change worker.chained (ofPid samples pid) = (worker.chained samples).filter _
    rw [chained_ofPid, ofPid]
    refine filter_congr ?_
    intro sample member
    exact (keepKey sample member).symm
  unfold roots objectValues
  rw [alone, ← filter_objectEntries (nodup_currentTreeMapData samples)
    (fun entry => keep entry.1), filter_map]
  congr 1
  refine filter_congr ?_
  intro entry member
  exact keepRoot entry ((perm_objectEntries _).mem_iff.1 member)

theorem processesApart_of_keysApart (apart : KeysApart worker isTopDown samples) :
    ProcessesApart worker isTopDown samples where
  distinct := nodup_processPid samples
  complete := by
    intro pid
    rw [mem_map_processPid_iff]
    constructor
    · rintro ⟨root, member, rfl⟩
      rcases mem_roots_iff.1 member with ⟨key, entry⟩
      rcases exists_sample_of_mem entry with ⟨sample, ofSamples, _, _, samePid⟩
      exact ⟨sample, ofSamples, samePid.symm⟩
    · rintro ⟨sample, member, rfl⟩
      rcases exists_root_of_mem isTopDown member with
        ⟨root, entry⟩
      rcases exists_sample_of_mem entry with
        ⟨other, ofSamples, sameKey, _, samePid⟩
      refine ⟨root, mem_roots_iff.2 ⟨_, entry⟩, ?_⟩
      rw [samePid]
      exact apart other ofSamples sample member sameKey
  alone := by
    intro process member
    have gathered := gather_of_mem_freshPerfCallchains member
    rw [filter_roots_of_keysApart apart] at gathered
    rw [freshPerfCallchains_of_pid fun root => pid_of_mem_roots_ofPid, gathered]
    rfl

theorem pid_of_processesApart (apart : ProcessesApart worker isTopDown samples)
    {sample : PerfCountSample} (member : sample ∈ worker.chained samples)
    {root : PerfTree} (entry : (worker.rootKey isTopDown sample, root) ∈
      worker.currentTreeMapData isTopDown samples) : root.data.pid = sample.pid := by
  rcases List.mem_map.1 ((apart.complete sample.pid).2 ⟨sample, member, rfl⟩)
    with ⟨process, isProcess, samePid⟩
  have alone := apart.alone process isProcess
  rw [samePid] at alone
  have ofAlone : sample ∈ worker.chained (ofPid samples sample.pid) := by
    rw [chained_ofPid, ofPid, mem_filter]
    exact ⟨member, by simp⟩
  rcases exists_root_of_mem isTopDown ofAlone with
    ⟨aloneRoot, aloneEntry⟩
  have aloneMember := mem_roots_iff.2 ⟨_, aloneEntry⟩
  have alonePid := pid_of_mem_roots_ofPid aloneMember
  have isChild : aloneRoot ∈ process.children := by
    rw [children_of_alone alone]
    exact aloneMember
  rcases mem_freshPerfCallchains_iff.1 isProcess with ⟨_, gathered⟩
  rw [(gather_addRoot gathered).1] at isChild
  rcases mem_roots_iff.1 (mem_of_mem_filter isChild) with
    ⟨key, otherEntry⟩
  have sameKey : key = worker.rootKey isTopDown sample := by
    rw [← key_of_mem otherEntry, key_of_mem aloneEntry]
  subst sameKey
  have same := inj_on_of_nodup_map (nodup_currentTreeMapData samples) otherEntry entry rfl
  have sameRoot : aloneRoot = root := congrArg Prod.snd same
  rw [← sameRoot, alonePid]

/-- Processes are kept apart just where no two samples of different processes give
one key. -/
theorem processesApart_iff (worker : PerfWorker) (isTopDown : Bool)
    (samples : List PerfCountSample) :
    ProcessesApart worker isTopDown samples ↔ KeysApart worker isTopDown samples := by
  refine ⟨?_, processesApart_of_keysApart⟩
  intro apart first ofFirst second ofSecond sameKey
  rcases exists_root_of_mem isTopDown ofFirst with
    ⟨root, entry⟩
  rw [← pid_of_processesApart apart ofFirst entry]
  rw [sameKey] at entry
  exact pid_of_processesApart apart ofSecond entry

/-- A thread `a1` of process 2 and a thread `a` of process 12. -/
def relatedNames : PerfWorker where
  threadData tid := if tid = 1 then ⟨"a1", ""⟩ else ⟨"a", ""⟩
  callChainData _ := [{ name := "main" }]

def relatedSamples : List PerfCountSample := [⟨0, 1, 1, "R", 2, []⟩, ⟨0, 3, 1, "R", 12, []⟩]

theorem not_processesApart_related : ¬ ProcessesApart relatedNames true relatedSamples := by
  intro apart
  have complete := (apart.complete 12).2 ⟨⟨0, 3, 1, "R", 12, []⟩, by decide, rfl⟩
  rw [mem_map_processPid_iff] at complete
  rcases complete with ⟨root, member, isPid⟩
  rcases mem_roots_iff.1 member with ⟨key, entry⟩
  have entries : relatedNames.currentTreeMapData true relatedSamples =
    [("a12", relatedNames.rootOf true relatedSamples)] := by
    rfl
  rw [entries, mem_singleton, Prod.mk.injEq] at entry
  rw [entry.2] at isPid
  have otherPid : (relatedNames.rootOf true relatedSamples).data.pid = 2 := by rfl
  rw [otherPid] at isPid
  cases isPid

end PerfWorker

end SysAnalyzer.LogicWorker
