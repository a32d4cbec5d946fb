import SysAnalyzer.LogicWorker.PerfBottomUp

/-!
# The perf tree from the outermost frame on

The tree that `getBottomUp` starts from is a trie of the call chains.  A node has
as its own time that of the samples with the chain that leads to it, and the
roots stand in the order in which their functions first come.
-/

namespace SysAnalyzer.LogicWorker

open Foundation List

namespace PerfBottomUpTime

def isFrame (time : PerfBottomUpTime) (frame : String) : Bool := time.symbolName == frame

def absorbFrame (sampleTime : Nat) (ts : List Int) (time : PerfBottomUpTime)
    (frame : String) (isEnd : Bool) : PerfBottomUpTime where
  symbolName := frame
  selfTime := time.selfTime + if isEnd then sampleTime else 0
  totalTime := time.totalTime + sampleTime
  tsArray := time.tsArray ++ ts

variable (sampleTime : Nat) (ts : List Int)

theorem named_absorbFrame : Named symbolName id isFrame {} (absorbFrame sampleTime ts) where
  same_iff := by simp [isFrame]
  key_fresh := fun _ _ => rfl
  key_absorb := fun _ _ _ _ => rfl

theorem adds_absorbFrame : Adds {} (absorbFrame sampleTime ts) totalTime selfTime sampleTime where
  total_fresh := rfl
  own_fresh := rfl
  total_absorb := fun _ _ _ => rfl
  own_absorb := fun _ _ _ => rfl

end PerfBottomUpTime

open PerfBottomUpTime

/-- The rest of a chain weighs on the children of a node what the whole weighs, or
nothing at its end. -/
theorem weight_mergeChain_of_keyed (sampleTime : Nat) (ts : List Int)
    {children : List TopUpTree} (isKeyed : Keyed symbolName children) (frames : List String) :
    weight totalTime (mergeChain isFrame {} (absorbFrame sampleTime ts) frames children) =
      weight totalTime children + if frames.isEmpty then 0 else sampleTime := by
  cases frames with
  | nil => rfl
  | cons frame rest =>
    have single := isKeyed.singleMatch (named_absorbFrame sampleTime ts) (frame :: rest)
    have none : furtherMatches isFrame frame children = 0 := by
      unfold furtherMatches
      unfold SingleMatch at single
      cases isLast : lastMatch (fun tree => isFrame tree.data frame) children with
      | none => rfl
      | some parts =>
        rcases parts with ⟨before, found, after⟩
        rw [isLast] at single
        simpa [countP_eq_zero] using single.1
    rw [weight_mergeChain (adds_absorbFrame sampleTime ts), none]
    simp

/-- What is calculated for a node is its old own time, and the time of the sample at
the end of its chain. -/
theorem calculateSelfTime_eq (sampleTime : Nat) (ts : List Int)
    {time visited : PerfBottomUpTime} {children : List TopUpTree}
    (isKeyed : Keyed symbolName children)
    (balance : time.totalTime = time.selfTime + weight totalTime children) (rest : List String)
    (visitedTotal : visited.totalTime = time.totalTime + sampleTime)
    (visitedTs : visited.tsArray = time.tsArray ++ ts) :
    calculateSelfTime visited (mergeChain isFrame {} (absorbFrame sampleTime ts) rest children) =
      absorbFrame sampleTime ts time visited.symbolName rest.isEmpty := by
  have below := weight_mergeChain_of_keyed sampleTime ts isKeyed rest
  unfold weight at balance below
  unfold calculateSelfTime
  rw [below, visitedTotal, visitedTs]
  unfold absorbFrame
  congr 1
  cases rest.isEmpty
  · simp only [Bool.false_eq_true, if_false]
    omega
  · simp only [if_true]
    omega

theorem visitFrames_eq (sampleTime : Nat) (ts : List Int)
    (frames : List String) {children : List TopUpTree}
    (isKeyed : Keyed symbolName children) (balanced :
      ∀ child ∈ children, Balanced totalTime selfTime child) :
    visitFrames sampleTime ts frames children =
      mergeChain isFrame {} (absorbFrame sampleTime ts) frames children := by
  induction frames generalizing children with
  | nil => rfl
  | cons frame rest induction =>
    have distinct := isKeyed
    rcases distinct with ⟨distinct, keyedBelow⟩
    rw [visitFrames]
    rcases mergeChain_cases (named_absorbFrame sampleTime ts) distinct frame rest with
      ⟨isNew, merged⟩ | ⟨before, found, after, isFound, split, apart, merged⟩
    · have others : children.dropWhile (fun child =>
        child.data.symbolName != frame) = [] := by
        rw [dropWhile_eq_nil_iff]
        simpa [withKey] using isNew
      rw [merged, others, induction keyed_nil (by simp)]
      dsimp only
      rw [@calculateSelfTime_eq sampleTime ts {} _ [] keyed_nil rfl rest (zero_add _).symm rfl]
    · have isOther : ∀ child ∈ before, (child.data.symbolName != frame) = true := by
        simpa using apart
      have sameName : found.data.symbolName = frame := (withKey_eq_some isFound).2
      have member := (withKey_eq_some isFound).1
      have ofFound : found.data.totalTime =
        found.data.selfTime + weight totalTime found.children := by
        rcases balanced found member with ⟨balance, _⟩
        exact balance
      have below : ∀ child ∈ found.children, Balanced totalTime selfTime child := by
        rcases balanced found member with ⟨_, below⟩
        exact below
      rw [merged, split, dropWhile_append_of_pos isOther,
        takeWhile_append_of_pos isOther, dropWhile_cons,
        takeWhile_cons]
      simp only [sameName, bne_self_eq_false, Bool.false_eq_true, if_false, append_nil]
      rw [induction (keyedBelow found member) below,
        calculateSelfTime_eq sampleTime ts (keyedBelow found member) ofFound rest rfl rfl]

namespace PerfWorker

variable {worker : PerfWorker} {perfTime : Nat}

def timeOf (perfTime : Nat) (samples : List PerfCountSample)
    (property : PerfCountSample → Bool) : Nat :=
  ((samples.filter property).map fun sample => perfTime * sample.count).sum

theorem timeOf_concat (samples : List PerfCountSample)
    (sample : PerfCountSample) (property : PerfCountSample → Bool) :
    timeOf perfTime (samples ++ [sample]) property = timeOf perfTime samples property +
      if property sample then perfTime * sample.count else 0 := by
  unfold timeOf
  rw [filter_append, map_append, sum_append]
  cases isKept : property sample <;> simp [isKept]

def outermost (worker : PerfWorker) (sample : PerfCountSample) : Option String :=
  (worker.frameNames sample).head?

/-- What the tree of some samples has of them. -/
structure CallTrie (worker : PerfWorker) (perfTime : Nat)
    (samples : List PerfCountSample) (tree : TopUpTree) : Prop where
  children : tree.children = worker.topUp perfTime samples
  keyed : Keyed symbolName tree.children
  balanced : Balanced totalTime selfTime tree
  own : ∀ path, numberAt symbolName selfTime path tree = timeOf perfTime samples fun sample =>
    decide (path = worker.frameNames sample)
  order : ∀ wanted, (tree.children.map fun child => child.data.symbolName).find? wanted =
    (samples.filterMap worker.outermost).find? wanted

theorem callTrie_nil (worker : PerfWorker) (perfTime : Nat) :
    CallTrie worker perfTime [] (.node {} []) where
  children := rfl
  keyed := keyed_nil
  balanced := .node rfl (by simp)
  own := by
    intro path
    cases path <;> rfl
  order := fun _ => rfl

theorem CallTrie.concat {samples : List PerfCountSample} {tree : TopUpTree}
    (trie : CallTrie worker perfTime samples tree) (sample : PerfCountSample) :
    ∃ next, CallTrie worker perfTime (samples ++ [sample]) next := by
  have names := named_absorbFrame (perfTime * sample.count) sample.ts
  have adds := adds_absorbFrame (perfTime * sample.count) sample.ts
  cases tree with
  | node data children =>
    have keyed : Keyed symbolName children := trie.keyed
    have visited : worker.topUp perfTime (samples ++ [sample]) = mergeChain isFrame {}
      (absorbFrame (perfTime * sample.count) sample.ts)
      (worker.frameNames sample) children := by
      have balancedBelow : ∀ child ∈ children, Balanced totalTime selfTime child := by
        rcases trie.balanced with ⟨_, below⟩
        exact below
      unfold topUp
      rw [run_append, run_cons, run_nil, ← topUp, ← trie.children]
      exact visitFrames_eq _ _ _ keyed balancedBelow
    have takes := takes_absorb adds data "" (worker.frameNames sample).isEmpty
    refine ⟨.node (absorbFrame (perfTime * sample.count) sample.ts data ""
      (worker.frameNames sample).isEmpty)
      (mergeChain isFrame {} (absorbFrame (perfTime * sample.count) sample.ts)
        (worker.frameNames sample) children), visited.symm, ?_, ?_, ?_, ?_⟩
    · exact keyed.mergeChain names _
    · exact trie.balanced.descend adds (.inr (keyed.singleMatch names _)) takes
    · intro path
      rw [numberAt_own_mergeChain names adds path keyed takes, trie.own, timeOf_concat]
      simp
    · intro wanted
      have earlier := trie.order wanted
      rw [MergeTree.children_node] at earlier ⊢
      rw [filterMap_append, find?_append, ← earlier]
      cases frames : worker.frameNames sample with
      | nil => simp [mergeChain, outermost, frames]
      | cons frame rest =>
        rcases keyed with ⟨distinct, _⟩
        rw [find?_keys_mergeChain names distinct, find?_append]
        simp [outermost, frames]

theorem exists_callTrie (worker : PerfWorker) (perfTime : Nat) (samples : List PerfCountSample) :
    ∃ tree, CallTrie worker perfTime samples tree := by
  induction samples using reverseRecOn with
  | nil => exact ⟨_, callTrie_nil worker perfTime⟩
  | append_singleton samples sample induction =>
    rcases induction with ⟨tree, trie⟩
    exact trie.concat sample

end PerfWorker

end SysAnalyzer.LogicWorker
