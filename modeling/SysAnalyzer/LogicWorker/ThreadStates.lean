import SysAnalyzer.Foundation.PropertyMap

/-!
# Summaries of thread states

`getPTSData` groups the thread state slices of a window by process, thread and
state, and `getSPTData` by state, process and thread.  Each slice updates one
node on each of three levels, or adds it.
-/

namespace SysAnalyzer.LogicWorker.SPT

open Foundation List

/-- `ThreadSlice`, with what the summaries read of it.  Its state is one of those
that the trace streamer has names for, so it never is a property of every object. -/
structure ThreadSlice where
  state : String
  isState : state ∉ objectPrototypeNames
  startTs : Int
  dur : Nat
  cpu : Option Nat
  tid : Nat
  pid : Nat

/-- What each node shows of its slices. -/
structure Summary where
  title : String
  count : Nat
  minDuration : Nat
  maxDuration : Nat
  wallDuration : Nat

/-- A node without children. -/
def ThreadSlice.item (slice : ThreadSlice) (title : String) : Summary where
  title
  count := 1
  minDuration := slice.dur
  maxDuration := slice.dur
  wallDuration := slice.dur

def Summary.add (summary : Summary) (slice : ThreadSlice) : Summary :=
  { summary with
    count := summary.count + 1
    wallDuration := summary.wallDuration + slice.dur
    minDuration := min summary.minDuration slice.dur
    maxDuration := max summary.maxDuration slice.dur }

/-- A node, with its children by their titles. -/
structure Branch (Child : Type) where
  summary : Summary
  children : List (String × Child)

def updateLeaf (title : ThreadSlice → String) (slice : ThreadSlice) : Option Summary → Summary
  | none => slice.item (title slice)
  | some leaf => leaf.add slice

/-- A node and what is below it is updated, or added. -/
def updateBranch {Child : Type} (title key : ThreadSlice → String)
    (update : ThreadSlice → Option Child → Child) (slice : ThreadSlice) :
    Option (Branch Child) → Branch Child
  | none => ⟨slice.item (title slice), [(key slice, update slice none)]⟩
  | some node => ⟨node.summary.add slice, upsert (key slice) (update slice) node.children⟩

namespace ThreadSlice

/-- `P-${pid}`. -/
def processTitle (slice : ThreadSlice) : String := "P-" ++ toString slice.pid

/-- `T-${tid}`. -/
def threadTitle (slice : ThreadSlice) : String := "T-" ++ toString slice.tid

/-- `S-${state}`. -/
def stateTitle (slice : ThreadSlice) : String := "S-" ++ slice.state

end ThreadSlice

/-- The filter of both groupings. -/
def inWindow (leftNs rightNs : Int) (cpus : List Nat) (slice : ThreadSlice) : Bool :=
  max leftNs slice.startTs < min rightNs (slice.startTs + slice.dur) &&
    slice.cpu.all fun cpu => cpus.contains cpu

abbrev Grouping := List (Branch (Branch Summary))

/-- A node of the first level. -/
def updateTop (mark : String) (key middle bottom : ThreadSlice → String) :
    ThreadSlice → Option (Branch (Branch Summary)) → Branch (Branch Summary) :=
  updateBranch (fun slice => mark ++ key slice) middle
    (updateBranch middle bottom (updateLeaf bottom))

def groupSlices (mark : String) (key middle bottom : ThreadSlice → String)
    (slices : List ThreadSlice) : Grouping :=
  objectValues (group key (updateTop mark key middle bottom) slices)

def getPTSData (threadSlice : List ThreadSlice) (ptsLeftNs ptsRightNs : Int)
    (cpus : List Nat) : Grouping :=
  groupSlices "P-" (fun slice => toString slice.pid) ThreadSlice.threadTitle ThreadSlice.stateTitle
    (threadSlice.filter (inWindow ptsLeftNs ptsRightNs cpus))

def getSPTData (threadSlice : List ThreadSlice) (sptLeftNs sptRightNs : Int)
    (cpus : List Nat) : Grouping :=
  groupSlices "S-" ThreadSlice.state ThreadSlice.processTitle ThreadSlice.threadTitle
    (threadSlice.filter (inWindow sptLeftNs sptRightNs cpus))

def leaves (tree : Grouping) : List ((String × String × String) × Summary) :=
  tree.flatMap fun top => top.children.flatMap fun middle =>
    middle.2.children.map fun leaf => ((top.summary.title, middle.1, leaf.1), leaf.2)

structure Summary.Of (summary : Summary) (slices : List ThreadSlice) :
    Prop where
  count : summary.count = slices.length
  wall : summary.wallDuration = (slices.map ThreadSlice.dur).sum
  least : IsLeast {dur | ∃ slice ∈ slices, slice.dur = dur} summary.minDuration
  greatest : IsGreatest {dur | ∃ slice ∈ slices, slice.dur = dur} summary.maxDuration

theorem Summary.of_item (slice : ThreadSlice) (title : String) : (slice.item title).Of [slice] where
  count := rfl
  wall := by simp [ThreadSlice.item]
  least := by simp [ThreadSlice.item, IsLeast, lowerBounds]
  greatest := by simp [ThreadSlice.item, IsGreatest, upperBounds]

theorem Summary.Of.add {summary : Summary} {slices : List ThreadSlice}
    (ofSlices : summary.Of slices) (slice : ThreadSlice) :
    (summary.add slice).Of (slices ++ [slice]) := by
  have durations : {dur | ∃ other ∈ slices ++ [slice], other.dur = dur} =
    insert slice.dur {dur | ∃ other ∈ slices, other.dur = dur} := by
    ext dur
    simp [or_and_right, exists_or, or_comm, eq_comm]
  constructor
  · simp [Summary.add, ofSlices.count]
  · simp [Summary.add, ofSlices.wall]
  · rw [durations, Summary.add, min_comm]
    exact ofSlices.least.insert _
  · rw [durations, Summary.add, max_comm]
    exact ofSlices.greatest.insert _

theorem Summary.Of.equal {first second : Summary} {slices : List ThreadSlice}
    (ofFirst : first.Of slices) (ofSecond : second.Of slices) :
    first.count = second.count ∧ first.wallDuration = second.wallDuration ∧
      first.minDuration = second.minDuration ∧ first.maxDuration = second.maxDuration :=
  ⟨ofFirst.count.trans ofSecond.count.symm, ofFirst.wall.trans ofSecond.wall.symm,
    ofFirst.least.unique ofSecond.least,
    ofFirst.greatest.unique ofSecond.greatest⟩

/-- An update keeps the summary of a node. -/
structure Updates {Child : Type} (summaryOf : Child → Summary)
    (title : ThreadSlice → String)
    (update : ThreadSlice → Option Child → Child) : Prop where
  added : ∀ slice, summaryOf (update slice none) = slice.item (title slice)
  changed : ∀ slice child, summaryOf (update slice (some child)) = (summaryOf child).add slice

theorem updates_leaf (title : ThreadSlice → String) : Updates id title (updateLeaf title) :=
  ⟨fun _ => rfl, fun _ _ => rfl⟩

variable {Child : Type} {summaryOf : Child → Summary}
  {title key : ThreadSlice → String}
  {update : ThreadSlice → Option Child → Child}

theorem updates_branch : Updates Branch.summary title (updateBranch title key update) :=
  ⟨fun _ => rfl, fun _ _ => rfl⟩

theorem Updates.gather (updates : Updates summaryOf title update)
    {slices : List ThreadSlice} {child : Child} (gathered : gather update slices = some child) :
    (summaryOf child).Of slices ∧ ∃ slice ∈ slices, (summaryOf child).title = title slice := by
  induction slices using reverseRecOn generalizing child with
  | nil => cases gathered
  | append_singleton slices slice induction =>
    rw [gather_concat] at gathered
    cases Option.some.inj gathered
    cases before : Foundation.gather update slices with
    | none =>
      have none : slices = [] := by
        by_contra some
        have isSome := gather_isSome update some
        rw [before] at isSome
        cases isSome
      rw [none, updates.added]
      exact ⟨Summary.of_item slice _, slice, by simp, rfl⟩
    | some child =>
      rcases induction before with ⟨ofSlices, first, member, isTitle⟩
      rw [updates.changed]
      exact ⟨ofSlices.add slice, first, mem_append_left _ member, isTitle⟩

theorem children_gather {slices : List ThreadSlice} {node : Branch Child}
    (gathered : gather (updateBranch title key update) slices = some node) :
    node.children = group key update slices := by
  induction slices using reverseRecOn generalizing node with
  | nil => cases gathered
  | append_singleton slices slice induction =>
    rw [gather_concat] at gathered
    cases Option.some.inj gathered
    rw [group_concat]
    cases before : gather (updateBranch title key update) slices with
    | none =>
      have none : slices = [] := by
        by_contra some
        have isSome := gather_isSome (updateBranch title key update) some
        rw [before] at isSome
        cases isSome
      rw [none]
      rfl
    | some node =>
      rw [← induction before]
      rfl

structure Summary.Sums (summary : Summary) (children : List Summary) :
    Prop where
  count : summary.count = (children.map Summary.count).sum
  wall : summary.wallDuration = (children.map Summary.wallDuration).sum
  least : IsLeast {dur | ∃ child ∈ children, child.minDuration = dur} summary.minDuration
  greatest : IsGreatest {dur | ∃ child ∈ children, child.maxDuration = dur} summary.maxDuration

/-- Groups of slices sum up to the summary of all. -/
theorem sums_group (updates : Updates summaryOf title update)
    {slices : List ThreadSlice} {summary : Summary} (ofSlices : summary.Of slices) :
    summary.Sums ((group key update slices).map fun entry => summaryOf entry.2) := by
  have child {wanted : String} {value : Child}
    (member : (wanted, value) ∈ group key update slices) :=
    (updates.gather ((mem_group_iff key update).1 member)).1
  -- the child of a slice
  have exists_child : ∀ slice ∈ slices, ∃ value, (key slice, value) ∈ group key update slices ∧
    slice ∈ slices.filter fun other => key other = key slice := by
    intro slice member
    have isKey := (mem_keys_group key update slices (key slice)).2 ⟨slice, member, rfl⟩
    rcases mem_map.1 isKey with ⟨⟨_, value⟩, isEntry, rfl⟩
    exact ⟨value, isEntry, by simpa using member⟩
  constructor
  case count =>
    have sum : ((group key update slices).map fun entry =>
      (summaryOf entry.2).count).sum = (slices.map fun _ => 1).sum :=
      sum_group key update (fun value => (summaryOf value).count) <| by
        rintro slice - (_ | value)
        · rw [updates.added]
          rfl
        · rw [updates.changed]
          rfl
    rw [ofSlices.count, map_map]
    simpa [Function.comp_def] using sum.symm
  case wall =>
    have sum : ((group key update slices).map fun entry =>
      (summaryOf entry.2).wallDuration).sum = (slices.map ThreadSlice.dur).sum :=
      sum_group key update (fun value => (summaryOf value).wallDuration) <| by
        rintro slice - (_ | value)
        · rw [updates.added]
          exact (zero_add _).symm
        · rw [updates.changed]
          rfl
    rw [ofSlices.wall, map_map]
    exact sum.symm
  case least =>
    constructor
    · rcases ofSlices.least.1 with ⟨slice, member, isLeast⟩
      rcases exists_child slice member with ⟨value, isEntry, inside⟩
      refine ⟨summaryOf value, mem_map.2 ⟨_, isEntry, rfl⟩, ?_⟩
      rcases (child isEntry).least.1 with ⟨other, ofKey, isMin⟩
      have above := ofSlices.least.2 ⟨other, mem_of_mem_filter ofKey, isMin⟩
      have below := (child isEntry).least.2 ⟨slice, inside, rfl⟩
      omega
    · rintro _ ⟨_, member, rfl⟩
      rcases mem_map.1 member with ⟨⟨wanted, value⟩, isEntry, rfl⟩
      rcases (child isEntry).least.1 with ⟨other, ofKey, isMin⟩
      exact ofSlices.least.2 ⟨other, mem_of_mem_filter ofKey, isMin⟩
  case greatest =>
    constructor
    · rcases ofSlices.greatest.1 with ⟨slice, member, isGreatest⟩
      rcases exists_child slice member with ⟨value, isEntry, inside⟩
      refine ⟨summaryOf value, mem_map.2 ⟨_, isEntry, rfl⟩, ?_⟩
      rcases (child isEntry).greatest.1 with ⟨other, ofKey, isMax⟩
      have below := ofSlices.greatest.2 ⟨other, mem_of_mem_filter ofKey, isMax⟩
      have above := (child isEntry).greatest.2 ⟨slice, inside, rfl⟩
      omega
    · rintro _ ⟨_, member, rfl⟩
      rcases mem_map.1 member with ⟨⟨wanted, value⟩, isEntry, rfl⟩
      rcases (child isEntry).greatest.1 with ⟨other, ofKey, isMax⟩
      exact ofSlices.greatest.2 ⟨other, mem_of_mem_filter ofKey, isMax⟩

variable {mark : String} {middle bottom : ThreadSlice → String}
  {slices : List ThreadSlice}

def slicesOf (first second third : ThreadSlice → String)
    (slices : List ThreadSlice) (path : String × String × String) : List ThreadSlice :=
  slices.filter fun slice => first slice = path.1 ∧ second slice = path.2.1 ∧ third slice = path.2.2

theorem title_top {wanted : String} {top : Branch (Branch Summary)}
    (gathered : gather (updateTop mark key middle bottom)
      (slices.filter fun slice => key slice = wanted) = some top) :
    top.summary.title = mark ++ wanted := by
  rcases (updates_branch.gather gathered).2 with ⟨slice, member, isTitle⟩
  rw [mem_filter, decide_eq_true_iff] at member
  rw [isTitle, member.2]

theorem mark_append_inj {first second : String} :
    mark ++ first = mark ++ second ↔ first = second := by
  rw [← String.toList_inj, String.toList_append, String.toList_append,
    append_cancel_left_eq, String.toList_inj]

theorem mem_leaves_iff {path : String × String × String} {leaf : Summary} :
    (path, leaf) ∈ leaves (groupSlices mark key middle bottom slices) ↔ gather (updateLeaf bottom)
      (slicesOf (fun slice => mark ++ key slice) middle bottom slices path) = some leaf := by
  rcases path with ⟨first, second, third⟩
  have filters (wanted : String) : slicesOf (fun slice => mark ++ key slice) middle bottom slices
    (mark ++ wanted, second, third) = (((slices.filter fun slice => key slice = wanted).filter
      fun slice => middle slice = second).filter fun slice => bottom slice = third) := by
    rw [slicesOf, filter_filter, filter_filter]
    refine filter_congr fun slice _ => ?_
    simp only [mark_append_inj, Bool.decide_and]
    ac_rfl
  simp only [leaves, groupSlices, mem_flatMap, mem_map, mem_objectValues_group_iff]
  constructor
  · rintro ⟨top, ⟨wanted, ofTop⟩, ⟨_, node⟩, isMiddle, ⟨_, _⟩, isLeaf, same⟩
    cases same
    rw [children_gather ofTop, mem_group_iff] at isMiddle
    rw [children_gather isMiddle, mem_group_iff] at isLeaf
    rw [title_top ofTop, filters]
    exact isLeaf
  · intro gathered
    have nonempty : slicesOf (fun slice => mark ++ key slice) middle bottom
      slices (first, second, third) ≠ [] := by
      intro none
      rw [none] at gathered
      cases gathered
    rcases exists_mem_of_ne_nil _ nonempty with ⟨slice, member⟩
    rw [slicesOf, mem_filter, decide_eq_true_iff] at member
    rcases member with ⟨isSlice, rfl, rfl, rfl⟩
    rw [filters] at gathered
    have inTop : slice ∈ slices.filter fun other => key other = key slice := by simpa using isSlice
    have inMiddle : slice ∈ (slices.filter fun other => key other = key slice).filter
      fun other => middle other = middle slice := by
      simpa using isSlice
    rcases Option.isSome_iff_exists.1 (gather_isSome
      (updateTop mark key middle bottom) (ne_nil_of_mem inTop)) with
      ⟨top, ofTop⟩
    rcases Option.isSome_iff_exists.1 (gather_isSome
      (updateBranch middle bottom (updateLeaf bottom))
      (ne_nil_of_mem inMiddle)) with ⟨node, ofNode⟩
    refine ⟨top, ⟨key slice, ofTop⟩, (middle slice, node), ?_, (bottom slice, leaf), ?_, ?_⟩
    · rw [children_gather ofTop, mem_group_iff]
      exact ofNode
    · rw [children_gather ofNode, mem_group_iff]
      exact gathered
    · rw [title_top ofTop]

theorem nodup_flatMap_of_keys {Entry Path : Type} {entries : List Entry}
    {paths : Entry → List Path} (tag : Entry → String) (first : Path → String)
    (distinct : (entries.map tag).Nodup)
    (tagged : ∀ entry ∈ entries, ∀ path ∈ paths entry, first path = tag entry)
    (inner : ∀ entry ∈ entries, (paths entry).Nodup) : (entries.flatMap paths).Nodup := by
  induction entries with
  | nil => exact nodup_nil
  | cons entry entries induction =>
    rw [map_cons, nodup_cons] at distinct
    rw [forall_mem_cons] at tagged inner
    rw [flatMap_cons, nodup_append]
    refine ⟨inner.1, induction distinct.2 tagged.2 inner.2, ?_⟩
    rintro path ofEntry _ ofOthers rfl
    rcases mem_flatMap.1 ofOthers with ⟨other, member, ofOther⟩
    have same := tagged.1 path ofEntry
    rw [tagged.2 other member path ofOther] at same
    exact distinct.1 (same ▸ mem_map_of_mem member)

theorem nodup_titles :
    ((groupSlices mark key middle bottom slices).map fun top => top.summary.title).Nodup := by
  have injective : Function.Injective (mark ++ · : String → String) :=
    fun _ _ same => mark_append_inj.1 same
  have distinct := (nodup_keys_group key (updateTop mark key middle bottom) slices).map injective
  rw [map_map] at distinct
  rw [groupSlices, ((perm_objectValues _).map _).nodup_iff, map_map]
  refine (congrArg Nodup (map_congr_left fun entry member => ?_)).mpr distinct
  exact title_top ((mem_group_iff _ _).1 member)

theorem nodup_paths :
    ((leaves (groupSlices mark key middle bottom slices)).map Prod.fst).Nodup := by
  simp only [leaves, map_flatMap, map_map]
  refine nodup_flatMap_of_keys (fun top => top.summary.title) Prod.fst nodup_titles ?_ ?_
  · intro top _ path member
    simp only [mem_flatMap, mem_map] at member
    rcases member with ⟨_, -, _, -, rfl⟩
    rfl
  · intro top isTop
    rw [groupSlices, mem_objectValues_group_iff] at isTop
    rcases isTop with ⟨wanted, ofTop⟩
    rw [children_gather ofTop]
    refine nodup_flatMap_of_keys Prod.fst (fun path => path.2.1) (nodup_keys_group _ _ _) ?_ ?_
    · intro node _ path member
      rcases mem_map.1 member with ⟨_, -, rfl⟩
      rfl
    · intro node isNode
      rw [children_gather ((mem_group_iff _ _).1 isNode)]
      refine Nodup.of_map (fun path => path.2.2) ?_
      rw [map_map]
      exact nodup_keys_group _ _ _

def SumsUp (tree : Grouping) : Prop :=
  ∀ top ∈ tree, top.summary.Sums (top.children.map fun node => node.2.summary) ∧
    ∀ node ∈ top.children, node.2.summary.Sums (node.2.children.map Prod.snd)

theorem sumsUp_groupSlices : SumsUp (groupSlices mark key middle bottom slices) := by
  intro top isTop
  rw [groupSlices, mem_objectValues_group_iff] at isTop
  rcases isTop with ⟨wanted, ofTop⟩
  have ofSlices := (updates_branch.gather ofTop).1
  rw [children_gather ofTop]
  refine ⟨sums_group updates_branch ofSlices, ?_⟩
  rintro ⟨title, node⟩ isNode
  have ofNode := (mem_group_iff _ _).1 isNode
  rw [children_gather ofNode]
  exact sums_group (updates_leaf bottom) (updates_branch.gather ofNode).1

/-- The leaves are those of the slices, each with the summary of its own. -/
structure LeavesOf (first second third : ThreadSlice → String)
    (slices : List ThreadSlice) (tree : Grouping) : Prop where
  once : ((leaves tree).map Prod.fst).Nodup
  listed : ∀ path, path ∈ (leaves tree).map Prod.fst ↔ slicesOf first second third slices path ≠ []
  summarised : ∀ entry ∈ leaves tree, entry.2.Of (slicesOf first second third slices entry.1)

theorem leavesOf_groupSlices : LeavesOf (fun slice => mark ++ key slice) middle bottom slices
    (groupSlices mark key middle bottom slices) where
  once := nodup_paths
  listed path := by
    rw [mem_map]
    constructor
    · rintro ⟨⟨_, leaf⟩, isLeaf, rfl⟩ none
      rw [mem_leaves_iff, none] at isLeaf
      cases isLeaf
    · intro some
      rcases Option.isSome_iff_exists.1 (gather_isSome (updateLeaf bottom) some)
        with ⟨leaf, gathered⟩
      exact ⟨(path, leaf), mem_leaves_iff.2 gathered, rfl⟩
  summarised := by
    rintro ⟨path, leaf⟩ isLeaf
    exact ((updates_leaf bottom).gather (mem_leaves_iff.1 isLeaf)).1

/--
The leaves of both trees are those of the slices in the window, each with the
summary of its own slices, and are equal; the inner nodes sum up their children.
-/
theorem summaries_agree (threadSlice : List ThreadSlice) (leftNs rightNs : Int) (cpus : List Nat) :
    LeavesOf ThreadSlice.processTitle ThreadSlice.threadTitle ThreadSlice.stateTitle
      (threadSlice.filter (inWindow leftNs rightNs cpus))
      (getPTSData threadSlice leftNs rightNs cpus) ∧
      LeavesOf ThreadSlice.stateTitle ThreadSlice.processTitle ThreadSlice.threadTitle
        (threadSlice.filter (inWindow leftNs rightNs cpus))
        (getSPTData threadSlice leftNs rightNs cpus) ∧
      (∀ process thread state leaf other, ((process, thread, state), leaf) ∈
        leaves (getPTSData threadSlice leftNs rightNs cpus) →
        ((state, process, thread), other) ∈ leaves (getSPTData threadSlice leftNs rightNs cpus) →
          leaf.count = other.count ∧ leaf.wallDuration = other.wallDuration ∧
            leaf.minDuration = other.minDuration ∧ leaf.maxDuration = other.maxDuration) ∧
      SumsUp (getPTSData threadSlice leftNs rightNs cpus) ∧
      SumsUp (getSPTData threadSlice leftNs rightNs cpus) := by
  have pts : LeavesOf ThreadSlice.processTitle ThreadSlice.threadTitle
    ThreadSlice.stateTitle _ (getPTSData threadSlice leftNs rightNs cpus) :=
    leavesOf_groupSlices
  have spt : LeavesOf ThreadSlice.stateTitle ThreadSlice.processTitle
    ThreadSlice.threadTitle _ (getSPTData threadSlice leftNs rightNs cpus) :=
    leavesOf_groupSlices
  refine ⟨pts, spt, ?_, sumsUp_groupSlices, sumsUp_groupSlices⟩
  intro process thread state leaf other isLeaf isOther
  have ofLeaf := pts.summarised _ isLeaf
  have ofOther := spt.summarised _ isOther
  have same (slices : List ThreadSlice) : slicesOf ThreadSlice.stateTitle ThreadSlice.processTitle
    ThreadSlice.threadTitle slices (state, process, thread) =
      slicesOf ThreadSlice.processTitle ThreadSlice.threadTitle
        ThreadSlice.stateTitle slices (process, thread, state) := by
    refine filter_congr fun slice _ => ?_
    simp only [Bool.decide_and]
    ac_rfl
  rw [same] at ofOther
  exact ofLeaf.equal ofOther

end SysAnalyzer.LogicWorker.SPT
