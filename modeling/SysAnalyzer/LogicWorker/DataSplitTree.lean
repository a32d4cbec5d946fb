import SysAnalyzer.LogicWorker.DataSplitCoverage

/-!
# The visible tree

Hanging the tree together gives every node the shown nodes that it is the nearest
shown node above of, in the order of the list.  A search ends: it goes down the
visible tree, where a node is deeper than the one it hangs at.
-/

namespace SysAnalyzer.LogicWorker

open Foundation List
open DataSplit

namespace MergedCallTree

variable (tree : MergedCallTree)

variable {entry : MerageEntry}

section

variable (member : entry ∈ tree.entries)
include member

theorem entryOf_of_mem : tree.entryOf entry.2.ref = some entry := by
  unfold entryOf
  cases found : tree.entries.find? fun other => other.2.ref = entry.2.ref with
  | none =>
    have absent := find?_eq_none.1 found entry member
    simp at absent
  | some other =>
    have isOther := mem_of_find?_eq_some found
    have sameRef : other.2.ref = entry.2.ref := by simpa using find?_some found
    rw [inj_on_of_nodup_map tree.distinct isOther member sameRef]

theorem parentNodes_of_mem : tree.parentNodes entry.2.ref = entry.1.tail.map MerageBean.ref := by
  rw [parentNodes, tree.entryOf_of_mem member]
  rfl

theorem head?_of_mem_entries : entry.1.head? = some entry.2 := by
  rcases entry with ⟨place, node⟩
  have head : place.head? = some (id node) := head?_of_mem_preorderAll member
  exact head

theorem exists_parent {bean : MerageBean} (isAbove : bean ∈ entry.1.tail) :
    ∃ place, (place, bean) ∈ tree.entries ∧ place.length < entry.1.length := by
  rcases append_of_mem isAbove with ⟨between, rest, split⟩
  have head := tree.head?_of_mem_entries member
  have whole : entry.1 = entry.2 :: (between ++ bean :: rest) := by
    rw [← split]
    exact eq_cons_of_mem_head? head
  have suffix : bean :: rest <:+ entry.1 := ⟨entry.2 :: between, by simp [whole]⟩
  rcases exists_of_suffix_preorderAll member suffix (nil_suffix) with
    ⟨other, isNode⟩
  have isBean : bean = other := Option.some_inj.1 (tree.head?_of_mem_entries isNode)
  subst isBean
  refine ⟨bean :: rest, isNode, ?_⟩
  rw [whole]
  simp only [length_cons, length_append]
  omega

theorem mem_processRefs_or_listed : (entry.1.tail = [] → entry.2.ref ∈ tree.processRefs) ∧
    (entry.1.tail ≠ [] → entry.2.ref ∈ tree.currentTreeList) := by
  refine ⟨?_, ?_⟩
  · intro isProcess
    unfold entries merageEntries at member
    rw [preorderAll_eq_flatMap, mem_flatMap] at member
    rcases member with ⟨process, ofProcesses, inside⟩
    cases process with
    | node node children =>
      rw [preorder, mem_cons] at inside
      rcases inside with here | below
      · subst here
        exact mem_map.2 ⟨_, ofProcesses, rfl⟩
      · rcases suffix_of_mem_preorderAll below with ⟨first, before, place⟩
        rw [← place] at isProcess
        cases before <;> simp at isProcess
  · intro isBelow
    rw [tree.listed.mem_iff, mem_map]
    refine ⟨entry, mem_filter.2 ⟨member, ?_⟩, rfl⟩
    simpa using isBelow

end

theorem mem_currentTreeList_iff (item : Nat) : item ∈ tree.currentTreeList ↔
    ∃ entry ∈ tree.entries, entry.1.tail ≠ [] ∧ entry.2.ref = item := by
  rw [tree.listed.mem_iff, mem_map]
  simp [entries, and_assoc]

theorem length_le_height (member : entry ∈ tree.entries) : entry.1.length ≤ tree.height := by
  unfold height
  generalize tree.entries = entries at member
  induction entries with
  | nil => cases member
  | cons first rest induction =>
    rw [map_cons, foldr_cons]
    rcases mem_cons.1 member with rfl | later
    · exact le_max_left _ _
    · exact (induction later).trans (le_max_right _ _)

/-- The listed nodes that have a node as the nearest shown one above them. -/
def hangingAt (state : DataSplit) (parent : Nat) : List Nat :=
  tree.currentTreeList.filter fun item =>
    isShown state item && ((tree.parentNodes item).find? (isShown state) == some parent)

structure SameButChildren (state next : DataSplit) : Prop where
  isStore : next.isStore = state.isStore
  searchShow : next.searchShow = state.searchShow
  splitMapData : next.splitMapData = state.splitMapData

theorem SameButChildren.isShown {state next : DataSplit} (same : SameButChildren state next) :
    MergedCallTree.isShown next = MergedCallTree.isShown state := by
  ext ref
  rw [MergedCallTree.isShown, MergedCallTree.isShown, same.isStore, same.searchShow]

theorem sameButChildren_hangNode (state : DataSplit) (item : Nat) :
    SameButChildren state (tree.hangNode state item) := by
  unfold hangNode
  by_cases shown : isShown state item = true
  · rw [if_pos shown]
    cases (tree.parentNodes item).find? (isShown state) with
    | none => exact ⟨rfl, rfl, rfl⟩
    | some parent => exact ⟨rfl, rfl, rfl⟩
  · rw [if_neg shown]
    exact ⟨rfl, rfl, rfl⟩

theorem foldl_hangNode (items : List Nat) (state : DataSplit) :
    SameButChildren state (items.foldl tree.hangNode state) ∧ ∀ parent,
      (items.foldl tree.hangNode state).children parent =
        state.children parent ++ items.filter fun item =>
          isShown state item && ((tree.parentNodes item).find? (isShown state) ==
            some parent) := by
  induction items generalizing state with
  | nil => exact ⟨⟨rfl, rfl, rfl⟩, by simp⟩
  | cons item items induction =>
    have here := tree.sameButChildren_hangNode state item
    rcases induction (tree.hangNode state item) with ⟨same, children⟩
    rw [here.isShown] at children
    refine ⟨⟨same.isStore.trans here.isStore, same.searchShow.trans here.searchShow,
      same.splitMapData.trans here.splitMapData⟩, ?_⟩
    intro parent
    rw [foldl_cons, children, filter_cons]
    unfold hangNode
    by_cases shown : isShown state item = true
    · cases found : (tree.parentNodes item).find? (isShown state) with
      | none => simp [shown]
      | some nearest =>
        by_cases isParent : parent = nearest
        · simp [shown, isParent]
        · simp [shown, isParent, Ne.symm isParent]
    · simp [shown]

theorem foldl_clearChildren (refs : List Nat) (state : DataSplit) :
    SameButChildren state (refs.foldl (fun state ref => clearChildren ref state) state) ∧ ∀ ref,
      (refs.foldl (fun state ref => clearChildren ref state) state).children ref =
        if ref ∈ refs then [] else state.children ref := by
  induction refs generalizing state with
  | nil => exact ⟨⟨rfl, rfl, rfl⟩, by simp⟩
  | cons first refs induction =>
    rcases induction (clearChildren first state) with ⟨same, children⟩
    refine ⟨⟨same.isStore, same.searchShow, same.splitMapData⟩, ?_⟩
    intro ref
    rw [foldl_cons, children]
    by_cases isFirst : ref = first
    · simp [clearChildren, isFirst]
    · simp [clearChildren, isFirst]

theorem resetNewAllNode_spec (state : DataSplit) :
    SameButChildren state (tree.resetNewAllNode state) ∧ ∀ entry ∈ tree.entries,
      (tree.resetNewAllNode state).children entry.2.ref = tree.hangingAt state entry.2.ref := by
  rcases foldl_clearChildren (tree.processRefs ++ tree.currentTreeList) state
    with ⟨cleared, empty⟩
  rcases tree.foldl_hangNode tree.currentTreeList ((tree.processRefs ++ tree.currentTreeList).foldl
    (fun state ref => clearChildren ref state) state) with ⟨same, children⟩
  refine ⟨⟨same.isStore.trans cleared.isStore, same.searchShow.trans cleared.searchShow,
    same.splitMapData.trans cleared.splitMapData⟩, ?_⟩
  intro entry member
  have isNode : entry.2.ref ∈ tree.processRefs ++ tree.currentTreeList := by
    rcases tree.mem_processRefs_or_listed member with ⟨process, listed⟩
    rw [mem_append]
    by_cases isProcess : entry.1.tail = []
    · exact .inl (process isProcess)
    · exact .inr (listed isProcess)
  rw [cleared.isShown] at children
  refine (children entry.2.ref).trans ?_
  rw [empty, if_pos isNode, nil_append]
  rfl

structure HangsBelow (state : DataSplit) : Prop where
  deeper : ∀ entry ∈ tree.entries, ∀ item ∈ state.children entry.2.ref, ∃ child ∈ tree.entries,
    child.2.ref = item ∧ entry.1.length < child.1.length

theorem hangsBelow_resetNewAllNode (state : DataSplit) :
    tree.HangsBelow (tree.resetNewAllNode state) := by
  refine ⟨?_⟩
  intro entry member item hangs
  rw [(tree.resetNewAllNode_spec state).2 entry member, hangingAt,
    mem_filter, Bool.and_eq_true, beq_iff_eq] at hangs
  rcases hangs with ⟨listed, _, nearest⟩
  rcases (tree.mem_currentTreeList_iff item).1 listed with
    ⟨child, isChild, _, rfl⟩
  refine ⟨child, isChild, rfl, ?_⟩
  have isAbove := mem_of_find?_eq_some nearest
  rw [tree.parentNodes_of_mem isChild, mem_map] at isAbove
  rcases isAbove with ⟨bean, ofTail, sameRef⟩
  rcases tree.exists_parent isChild ofTail with ⟨place, isParent, shorter⟩
  have same := inj_on_of_nodup_map tree.distinct isParent member sameRef
  rwa [← same]

theorem findSearchNode_isSome (includesSearch : String → String → Bool)
    (search : String) (levels : Nat) {nodes : List Nat} {state : DataSplit}
    (below : tree.HangsBelow state) (depth : ∀ node ∈ nodes, ∃ entry ∈ tree.entries,
      entry.2.ref = node ∧ tree.height < entry.1.length + levels) (parentSearch : Bool) :
    ∃ next, tree.findSearchNode includesSearch search levels nodes parentSearch state = some next ∧
      next.isStore = state.isStore ∧ next.children = state.children ∧
      next.splitMapData = state.splitMapData := by
  induction levels generalizing nodes state parentSearch with
  | zero =>
    cases nodes with
    | nil => exact ⟨state, rfl, rfl, rfl, rfl⟩
    | cons node nodes =>
      rcases depth node mem_cons_self with ⟨entry, member, _, deep⟩
      have bound := tree.length_le_height member
      omega
  | succ levels induction =>
    have loop : tree.findSearchNode includesSearch search (levels + 1) nodes parentSearch state =
      nodes.foldlM (fun state node =>
        let next := tree.showNode includesSearch search parentSearch state node
        tree.findSearchNode includesSearch search levels
          (next.children node) (next.searchShow node) next)
        state := by
      cases nodes <;> rfl
    rw [loop]
    clear loop
    induction nodes generalizing state with
    | nil => exact ⟨state, rfl, rfl, rfl, rfl⟩
    | cons node nodes beside =>
      rw [forall_mem_cons] at depth
      rcases depth with ⟨⟨entry, member, rfl, deep⟩, later⟩
      have childrenDepth : ∀ item ∈ state.children entry.2.ref,
        ∃ child ∈ tree.entries, child.2.ref = item ∧ tree.height < child.1.length + levels := by
        intro item hangs
        rcases below.deeper entry member item hangs with
          ⟨child, isChild, isItem, deeper⟩
        exact ⟨child, isChild, isItem, by omega⟩
      have belowShown : tree.HangsBelow (tree.showNode includesSearch search
        parentSearch state entry.2.ref) := ⟨below.deeper⟩
      rcases induction belowShown childrenDepth
        ((tree.showNode includesSearch search parentSearch state
          entry.2.ref).searchShow entry.2.ref) with
        ⟨middle, found, isStore, children, splitMapData⟩
      have belowMiddle : tree.HangsBelow middle := by
        refine ⟨?_⟩
        rw [children]
        exact below.deeper
      rcases beside belowMiddle later with
        ⟨next, rest, restStore, restChildren, restData⟩
      refine ⟨next, ?_, restStore.trans isStore,
        restChildren.trans children, restData.trans splitMapData⟩
      rw [foldlM_cons]
      refine (congrArg (fun middle => middle >>= _) found).trans ?_
      exact rest

theorem singleton_mem_entries {ref : Nat} (isProcess : ref ∈ tree.processRefs) :
    ∃ bean : MerageBean, ([bean], bean) ∈ tree.entries ∧ bean.ref = ref := by
  rcases mem_map.1 isProcess with ⟨process, ofProcesses, rfl⟩
  cases process with
  | node bean children =>
    refine ⟨bean, ?_, rfl⟩
    unfold entries merageEntries
    rw [preorderAll_eq_flatMap]
    exact mem_flatMap.2 ⟨_, ofProcesses, mem_cons_self⟩

theorem resetAllNode_isSome (includesSearch : String → String → Bool)
    (searchValue : String) (state : DataSplit) :
    ∃ next, tree.resetAllNode includesSearch searchValue state = some next ∧
      next.isStore = state.isStore ∧ next.splitMapData = state.splitMapData := by
  have reset := (tree.resetNewAllNode_spec (tree.clearSearchNode state)).1
  unfold resetAllNode
  by_cases noSearch : searchValue = ""
  · exact ⟨_, if_pos noSearch, reset.isStore, reset.splitMapData⟩
  · have depth : ∀ node ∈ tree.processRefs, ∃ entry ∈ tree.entries,
      entry.2.ref = node ∧ tree.height < entry.1.length + tree.height := by
      intro node isProcess
      rcases tree.singleton_mem_entries isProcess with ⟨bean, member, isNode⟩
      exact ⟨_, member, isNode, by simp⟩
    rcases tree.findSearchNode_isSome includesSearch searchValue tree.height
      (tree.hangsBelow_resetNewAllNode (tree.clearSearchNode state)) depth
      false with ⟨searched, found, isStore, _, splitMapData⟩
    have again := (tree.resetNewAllNode_spec searched).1
    refine ⟨tree.resetNewAllNode searched, ?_, ?_, ?_⟩
    · dsimp only
      rw [if_neg noSearch, found]
      rfl
    · rw [again.isStore, isStore, reset.isStore]
      rfl
    · rw [again.splitMapData, splitMapData, reset.splitMapData]
      rfl

end MergedCallTree

end SysAnalyzer.LogicWorker
