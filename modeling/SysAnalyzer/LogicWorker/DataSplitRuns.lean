import SysAnalyzer.LogicWorker.DataSplitTree

/-!
# Rules applied and undone

After any operations a node counts the active rules that cover it, and the tree
that is then hung together has every node that is not hidden once, at the nearest
node above it that is not hidden.  The names of inherited properties are the
exception: a rule with such a name cannot be stored, nor can it be undone.
-/

namespace SysAnalyzer.LogicWorker

open Foundation
open DataSplit

/-- The active rules after an operation. -/
def DataMining.activate (active : List MiningRule) : DataMining → List MiningRule
  | .undo name => active.filter fun rule => rule.name != name
  | operation =>
    match operation.rule with
    | some rule => rule :: active
    | none => active

def activeRules (operations : List DataMining) : List MiningRule :=
  run DataMining.activate [] operations

/-- No rule is applied while one of its name is active. -/
def NamesApart (operations : List DataMining) : Prop :=
  EachStep DataMining.activate (fun active operation =>
    ∀ rule, operation.rule = some rule → ∀ other ∈ active, other.name ≠ rule.name)
    [] operations

theorem activate_of_rule {operation : DataMining} {rule : MiningRule}
    (isRule : operation.rule = some rule) (active : List MiningRule) :
    operation.activate active = rule :: active := by
  cases operation with
  | undo name => cases isRule
  | resetAllNode searchValue => cases isRule
  | splitTree name isCharge isSymbol searchValue =>
    cases isRule
    rfl
  | hideSystemLibrary =>
    cases isRule
    rfl
  | hideNumMaxAndMin startNum endNum =>
    cases isRule
    rfl

theorem sum_eq_filter_add {active : List MiningRule}
    (apart : (active.map MiningRule.name).Nodup) (name : String) (number : MiningRule → Nat) :
    (active.map number).sum = ((active.filter fun rule => rule.name != name).map number).sum +
      (((active.find? fun rule => rule.name = name).map number).getD 0) := by
  induction active with
  | nil => rfl
  | cons rule active induction =>
    rw [List.map_cons, List.nodup_cons] at apart
    by_cases isName : rule.name = name
    · have others : active.filter (fun rule => rule.name != name) = active := by
        rw [List.filter_eq_self]
        intro other member
        rw [bne_iff_ne, ← isName]
        intro same
        exact apart.1 (List.mem_map.2 ⟨other, member, same⟩)
      simp [isName, others, add_comm]
    · have later := induction apart.2
      simp only [List.map_cons, List.sum_cons, later, List.find?_cons,
        List.filter_cons, isName, decide_false, bne_iff_ne, ne_eq,
        not_false_eq_true, if_true]
      omega

theorem find?_filter_name (active : List MiningRule) (name other : String) :
    ((active.filter fun rule => rule.name != name).find? fun rule =>
      rule.name = other) =
      if other = name then none else active.find? fun rule => rule.name = other := by
  rw [List.find?_filter]
  by_cases same : other = name
  · subst same
    rw [if_pos rfl, List.find?_eq_none]
    intro rule _
    simp
  · rw [if_neg same]
    congr 1
    ext1 rule
    by_cases isOther : rule.name = other
    · simp [isOther, same]
    · simp [isOther]

theorem lookup_filter_name (entries : List (String × List Nat)) (name other : String) :
    (entries.filter fun entry => entry.1 != name).lookup other =
      if other = name then none else entries.lookup other := by
  induction entries with
  | nil => simp
  | cons entry entries induction =>
    rcases entry with ⟨key, list⟩
    by_cases isName : key = name
    · subst isName
      by_cases isOther : other = key
      · simpa [isOther] using induction
      · simp [induction, isOther, List.lookup_cons, beq_false_of_ne isOther]
    · by_cases isOther : other = key
      · subst isOther
        simp [isName]
      · simp [isName, List.lookup_cons, beq_false_of_ne isOther, induction]

namespace MergedCallTree

variable (tree : MergedCallTree)

/-- A node is counted, and listed for each rule, as often as the active rules cover
it. -/
structure Tracked (active : List MiningRule) (state : DataSplit) : Prop where
  apart : (active.map MiningRule.name).Nodup
  isStore : ∀ ref, state.isStore ref =
    ((active.map fun rule => (tree.covered rule).count ref).sum : Nat)
  listOf : ∀ name, state.listOf name =
    ((active.find? fun rule => rule.name = name).map tree.covered).getD []

theorem tracked_merged : tree.Tracked [] tree.merged where
  apart := List.nodup_nil
  isStore := fun _ => rfl
  listOf := fun _ => rfl

variable {tree}

variable {active : List MiningRule} {state : DataSplit}

theorem Tracked.congr {next : DataSplit} (tracked : tree.Tracked active state)
    (isStore : next.isStore = state.isStore)
    (splitMapData : next.splitMapData = state.splitMapData) : tree.Tracked active next where
  apart := tracked.apart
  isStore := by
    rw [isStore]
    exact tracked.isStore
  listOf := by
    unfold DataSplit.listOf
    rw [splitMapData]
    exact tracked.listOf

theorem Tracked.stored {next : DataSplit} (tracked : tree.Tracked active state) {rule : MiningRule}
    (isNew : ∀ other ∈ active, other.name ≠ rule.name)
    (stored : Stored rule.name (tree.covered rule) state next) :
    tree.Tracked (rule :: active) next where
  apart := by
    rw [List.map_cons, List.nodup_cons]
    refine ⟨?_, tracked.apart⟩
    intro again
    rcases List.mem_map.1 again with ⟨other, member, same⟩
    exact isNew other member same
  isStore := by
    intro ref
    rw [stored.isStore, tracked.isStore, List.map_cons, List.sum_cons]
    push_cast
    ring
  listOf := by
    intro name
    rw [stored.listOf, tracked.listOf, List.find?_cons]
    by_cases isName : name = rule.name
    · have none : active.find? (fun other => other.name = name) = none := by
        rw [List.find?_eq_none]
        intro other member
        simpa [isName] using isNew other member
      simp [isName ▸ none, isName]
    · simp [isName, Ne.symm isName]

theorem resotreAllNode_eq {name : String}
    (isOwn : name ∉ objectPrototypeNames) (state : DataSplit) :
    ∃ next, resotreAllNode [name] state = some next ∧ (∀ ref, next.isStore ref =
      state.isStore ref - (state.listOf name).count ref) ∧
      next.splitMapData = state.splitMapData := by
  have fewer : ∀ (list : List Nat) (number : Int) (ref : Nat),
    list.foldl (fun isStore item => if item = ref then isStore - 1 else isStore) number =
      number - list.count ref := by
    intro list
    induction list with
    | nil => simp
    | cons item list induction =>
      intro number ref
      rw [List.foldl_cons, induction, List.count_cons]
      by_cases same : item = ref
      · simp only [same, if_true, beq_self_eq_true]
        push_cast
        ring
      · simp [same]
  refine ⟨{ state with
    isStore := fun ref =>
      ((state.splitMapData.lookup name).getD []).foldl
        (fun isStore item => if item = ref then isStore - 1 else isStore)
        (state.isStore ref) }, ?_, ?_, rfl⟩
  · unfold resotreAllNode
    rw [List.foldlM_cons, if_neg isOwn]
    rfl
  · intro ref
    exact fewer _ _ _

theorem Tracked.undone {restored : DataSplit} (tracked : tree.Tracked active state) {name : String}
    (isStore : ∀ ref, restored.isStore ref = state.isStore ref - (state.listOf name).count ref)
    (splitMapData : restored.splitMapData = state.splitMapData) :
    tree.Tracked (active.filter fun rule => rule.name != name)
      (clearSplitMapData name restored) where
  apart := tracked.apart.sublist (List.filter_sublist.map _)
  isStore := by
    intro ref
    have whole := sum_eq_filter_add tracked.apart name fun rule => (tree.covered rule).count ref
    have ofName : (state.listOf name).count ref =
      ((active.find? fun rule => rule.name = name).map fun rule =>
        (tree.covered rule).count ref).getD 0 := by
      rw [tracked.listOf]
      cases active.find? fun rule => rule.name = name <;> rfl
    refine (isStore ref).trans ?_
    rw [tracked.isStore, whole, ofName]
    push_cast
    ring
  listOf := by
    intro other
    have before := tracked.listOf other
    unfold DataSplit.listOf at before ⊢
    unfold clearSplitMapData
    rw [lookup_filter_name, find?_filter_name, splitMapData]
    by_cases same : other = name
    · simp [same]
    · rw [if_neg same, if_neg same]
      exact before

variable (tree) in
/-- No rule with the name of an inherited property is stored or undone. -/
def Safe : DataMining → Prop
  | .undo name => name ∉ objectPrototypeNames
  | operation =>
    ∀ rule, operation.rule = some rule → rule.name ∉ objectPrototypeNames ∨ tree.covered rule = []

variable {includesSearch : String → String → Bool}

theorem mine_undo (name : String) (state : DataSplit) :
    tree.mine includesSearch state (.undo name) =
      (resotreAllNode [name] state).map (clearSplitMapData name) := rfl

theorem mine_splitTree (name : String) (isCharge isSymbol : Bool)
    (searchValue : String) (state : DataSplit) :
    tree.mine includesSearch state (.splitTree name isCharge isSymbol searchValue) =
      (tree.applyRule state (.splitTree name isCharge isSymbol searchValue)).bind
        (tree.resetAllNode includesSearch searchValue) := rfl

theorem mine_of_unsafe {operation : DataMining}
    (isUnsafe : ¬ tree.Safe operation) (state : DataSplit) :
    tree.mine includesSearch state operation = none := by
  have unstored : ∀ rule, operation.rule = some rule → ¬ (∀ other, operation.rule = some other →
    other.name ∉ objectPrototypeNames ∨ tree.covered other = []) →
    tree.applyRule state operation = none := by
    intro rule isRule notSafe
    push Not at notSafe
    rcases notSafe with ⟨other, isOther, isInherited, nonempty⟩
    exact (tree.applyRule_spec isOther state).2 isInherited nonempty
  cases operation with
  | undo name =>
    have isInherited : name ∈ objectPrototypeNames := not_not.1 isUnsafe
    rw [mine_undo, resotreAllNode, List.foldlM_cons, if_pos isInherited]
    rfl
  | resetAllNode searchValue =>
    refine absurd ?_ isUnsafe
    intro rule isRule
    cases isRule
  | splitTree name isCharge isSymbol searchValue =>
    rw [mine_splitTree, unstored _ rfl isUnsafe]
    rfl
  | hideSystemLibrary => exact unstored _ rfl isUnsafe
  | hideNumMaxAndMin startNum endNum => exact unstored _ rfl isUnsafe

theorem Tracked.mine (tracked : tree.Tracked active state) {operation : DataMining}
    (isSafe : tree.Safe operation) (isNew : ∀ rule, operation.rule = some rule →
      ∀ other ∈ active, other.name ≠ rule.name) :
    ∃ next, tree.mine includesSearch state operation = some next ∧
      tree.Tracked (operation.activate active) next := by
  have applied : ∀ rule, operation.rule = some rule → (∀ other, operation.rule = some other →
    other.name ∉ objectPrototypeNames ∨ tree.covered other = []) →
    ∃ next, tree.applyRule state operation = some next ∧
      tree.Tracked (operation.activate active) next := by
    intro rule isRule safe
    rcases (tree.applyRule_spec isRule state).1 (safe rule isRule) with
      ⟨next, isNext, stored⟩
    refine ⟨next, isNext, ?_⟩
    rw [activate_of_rule isRule]
    exact tracked.stored (isNew rule isRule) stored
  cases operation with
  | undo name =>
    rcases resotreAllNode_eq isSafe state with
      ⟨restored, isRestored, isStore, splitMapData⟩
    refine ⟨clearSplitMapData name restored, ?_, tracked.undone isStore splitMapData⟩
    rw [mine_undo, isRestored]
    rfl
  | resetAllNode searchValue =>
    rcases tree.resetAllNode_isSome includesSearch searchValue state with
      ⟨next, isNext, isStore, splitMapData⟩
    exact ⟨next, isNext, tracked.congr isStore splitMapData⟩
  | splitTree name isCharge isSymbol searchValue =>
    rcases applied _ rfl isSafe with ⟨middle, isMiddle, trackedMiddle⟩
    rcases tree.resetAllNode_isSome includesSearch searchValue middle with
      ⟨next, isNext, isStore, splitMapData⟩
    refine ⟨next, ?_, trackedMiddle.congr isStore splitMapData⟩
    rw [mine_splitTree, isMiddle]
    exact isNext
  | hideSystemLibrary => exact applied _ rfl isSafe
  | hideNumMaxAndMin startNum endNum => exact applied _ rfl isSafe

/-- The counts of the nodes are the numbers of the active rules that cover them. -/
def Accounted (tree : MergedCallTree) (active : List MiningRule) (state : DataSplit) : Prop :=
  ∀ entry ∈ tree.entries, state.isStore entry.2.ref =
    (active.countP fun rule => rule.covers entry : Nat)

/-- Every node that is not hidden hangs once, at the nearest node above it that is
not hidden, and nothing else hangs anywhere. -/
structure HangsOnce (tree : MergedCallTree) (state : DataSplit) : Prop where
  once : ∀ parent ∈ tree.entries, ∀ entry ∈ tree.entries,
    (state.children parent.2.ref).count entry.2.ref = if state.isStore entry.2.ref = 0 ∧
      (entry.1.tail.find? fun bean => state.isStore bean.ref = 0) = some parent.2 then
      1
      else 0
  only : ∀ parent ∈ tree.entries, ∀ item ∈ state.children parent.2.ref,
    ∃ entry ∈ tree.entries, entry.2.ref = item

/-- Operations have a result, as far as they go: the counts are those of the active
rules, the tree can be hung together, and is the merged one without a rule, up
to the order of siblings. -/
def Composes (tree : MergedCallTree) (includesSearch : String → String → Bool)
    (operations : List DataMining) : Prop :=
  ∀ before after, operations = before ++ after → ∃ state,
    runPartial (tree.mine includesSearch) tree.merged before = some state ∧
      Accounted tree (activeRules before) state ∧
      ∃ reset, tree.resetAllNode includesSearch "" state = some reset ∧
        Accounted tree (activeRules before) reset ∧
        HangsOnce tree reset ∧
        (activeRules before = [] → ∀ entry ∈ tree.entries, (reset.children entry.2.ref).Perm
          (tree.merged.children entry.2.ref))

variable {entry : MerageEntry}

theorem count_covered (rule : MiningRule) (member : entry ∈ tree.entries) :
    (tree.covered rule).count entry.2.ref = if rule.covers entry then 1 else 0 := by
  have distinct : (tree.covered rule).Nodup := tree.distinct.sublist (List.filter_sublist.map _)
  have isCovered : entry.2.ref ∈ tree.covered rule ↔ rule.covers entry = true := by
    constructor
    · intro again
      rcases List.mem_map.1 again with ⟨other, ofCovered, sameRef⟩
      rcases List.mem_filter.1 ofCovered with ⟨isOther, covers⟩
      rwa [← List.inj_on_of_nodup_map tree.distinct isOther member sameRef]
    · intro covers
      exact List.mem_map.2 ⟨entry, List.mem_filter.2 ⟨member, covers⟩, rfl⟩
  by_cases covers : rule.covers entry = true
  · rw [if_pos covers]
    exact List.count_eq_one_of_mem distinct (isCovered.2 covers)
  · rw [if_neg covers, List.count_eq_zero, isCovered]
    exact covers

theorem Tracked.accounted (tracked : tree.Tracked active state) : Accounted tree active state := by
  intro entry member
  rw [tracked.isStore]
  congr 1
  clear tracked
  induction active with
  | nil => rfl
  | cons rule active induction =>
    rw [List.map_cons, List.sum_cons, induction, count_covered rule member,
      List.countP_cons, add_comm]

theorem isShown_clearSearchNode (member : entry ∈ tree.entries) (state : DataSplit) :
    isShown (tree.clearSearchNode state) entry.2.ref = (state.isStore entry.2.ref == 0) := by
  rcases tree.mem_processRefs_or_listed member with ⟨process, listed⟩
  have isNode : entry.2.ref ∈ tree.currentTreeList ++ tree.processRefs := by
    rw [List.mem_append]
    by_cases isProcess : entry.1.tail = []
    · exact .inr (process isProcess)
    · exact .inl (listed isProcess)
  unfold isShown clearSearchNode
  simp only [if_pos isNode, Bool.and_true]

theorem find?_parentNodes (member : entry ∈ tree.entries) (state : DataSplit) :
    (tree.parentNodes entry.2.ref).find? (isShown (tree.clearSearchNode state)) =
      (entry.1.tail.find? fun bean => state.isStore bean.ref = 0).map MerageBean.ref := by
  have nodes : ∀ bean ∈ entry.1.tail, isShown (tree.clearSearchNode state) bean.ref =
    decide (state.isStore bean.ref = 0) := by
    intro bean isAbove
    rcases tree.exists_parent member isAbove with ⟨place, isNode, _⟩
    have shown := isShown_clearSearchNode isNode state
    exact shown
  rw [tree.parentNodes_of_mem member, List.find?_map]
  congr 1
  exact List.find?_congr nodes

theorem resetAllNode_empty (state : DataSplit) : tree.resetAllNode includesSearch "" state =
    some (tree.resetNewAllNode (tree.clearSearchNode state)) := by
  unfold resetAllNode
  exact if_pos rfl

theorem mem_hangingAt_iff {parent : MerageEntry}
    (isParent : parent ∈ tree.entries) (member : entry ∈ tree.entries) (state : DataSplit) :
    entry.2.ref ∈ tree.hangingAt (tree.clearSearchNode state) parent.2.ref ↔
      state.isStore entry.2.ref = 0 ∧ (entry.1.tail.find? fun bean => state.isStore bean.ref = 0) =
        some parent.2 := by
  rw [hangingAt, List.mem_filter, Bool.and_eq_true, beq_iff_eq,
    isShown_clearSearchNode member, find?_parentNodes member, beq_iff_eq,
    Option.map_eq_some_iff]
  constructor
  · rintro ⟨_, shown, bean, nearest, sameRef⟩
    refine ⟨shown, ?_⟩
    rcases tree.exists_parent member (List.mem_of_find?_eq_some nearest) with
      ⟨place, isNode, _⟩
    rw [nearest, ← List.inj_on_of_nodup_map tree.distinct isNode isParent sameRef]
  · rintro ⟨shown, nearest⟩
    refine ⟨?_, shown, _, nearest, rfl⟩
    rw [tree.mem_currentTreeList_iff]
    refine ⟨entry, member, ?_, rfl⟩
    exact List.ne_nil_of_mem (List.mem_of_find?_eq_some nearest)

theorem nodup_currentTreeList (tree : MergedCallTree) : tree.currentTreeList.Nodup :=
  tree.listed.nodup_iff.2 (tree.distinct.sublist (List.filter_sublist.map _))

theorem hangsOnce_reset (tree : MergedCallTree) (state : DataSplit) :
    HangsOnce tree (tree.resetNewAllNode (tree.clearSearchNode state)) := by
  rcases tree.resetNewAllNode_spec (tree.clearSearchNode state) with
    ⟨same, children⟩
  have isStore : (tree.resetNewAllNode (tree.clearSearchNode state)).isStore =
    state.isStore := same.isStore
  refine ⟨?_, ?_⟩
  · intro parent isParent entry member
    rw [children parent isParent, isStore]
    have distinct : (tree.hangingAt (tree.clearSearchNode state) parent.2.ref).Nodup :=
      tree.nodup_currentTreeList.sublist List.filter_sublist
    have hangs := mem_hangingAt_iff isParent member state
    by_cases isNearest : state.isStore entry.2.ref = 0 ∧
      (entry.1.tail.find? fun bean => state.isStore bean.ref = 0) = some parent.2
    · rw [if_pos isNearest]
      exact List.count_eq_one_of_mem distinct (hangs.2 isNearest)
    · rw [if_neg isNearest, List.count_eq_zero, hangs]
      exact isNearest
  · intro parent isParent item hangs
    rw [children parent isParent, hangingAt, List.mem_filter, tree.mem_currentTreeList_iff] at hangs
    rcases hangs with ⟨⟨entry, member, _, isItem⟩, _⟩
    exact ⟨entry, member, isItem⟩

theorem perm_children_of_no_rules (accounted : Accounted tree [] state) {parent : MerageEntry}
    (isParent : parent ∈ tree.entries) :
    ((tree.resetNewAllNode (tree.clearSearchNode state)).children parent.2.ref).Perm
      (tree.merged.children parent.2.ref) := by
  have shown : ∀ entry ∈ tree.entries, state.isStore entry.2.ref = 0 := by
    intro entry member
    simpa using accounted entry member
  rw [(tree.resetNewAllNode_spec (tree.clearSearchNode state)).2 parent isParent]
  unfold hangingAt merged
  refine (tree.listed.filter _).trans ?_
  rw [List.filter_map, List.filter_filter]
  have sameEntries : tree.entries.filter (fun entry =>
    ((fun item =>
      isShown (tree.clearSearchNode state) item && ((tree.parentNodes item).find?
        (isShown (tree.clearSearchNode state)) == some parent.2.ref)) ∘
      fun entry : MerageEntry => entry.2.ref) entry &&
      !entry.1.tail.isEmpty) =
    tree.entries.filter fun entry =>
      entry.1.tail.head?.any fun bean => bean.ref = parent.2.ref := by
    refine List.filter_congr ?_
    intro entry member
    have nearest := find?_parentNodes member state
    have isShownEntry := isShown_clearSearchNode member state
    simp only [Function.comp_apply, nearest, isShownEntry, shown entry member]
    cases above : entry.1.tail with
    | nil => rfl
    | cons bean rest =>
      have isAbove : bean ∈ entry.1.tail := by simp [above]
      rcases tree.exists_parent member isAbove with ⟨place, isNode, _⟩
      have beanShown : state.isStore bean.ref = 0 := shown _ isNode
      simp [beanShown, beq_eq_decide]
  exact List.Perm.of_eq (congrArg (List.map _) sameEntries)

theorem tracked_run (tree : MergedCallTree)
    (includesSearch : String → String → Bool) {operations : List DataMining}
    (safe : ∀ operation ∈ operations, tree.Safe operation) (apart : NamesApart operations) :
    ∃ state, runPartial (tree.mine includesSearch) tree.merged operations = some state ∧
      tree.Tracked (activeRules operations) state := by
  induction operations using List.reverseRecOn with
  | nil => exact ⟨tree.merged, rfl, tree.tracked_merged⟩
  | append_singleton operations operation induction =>
    unfold NamesApart at apart
    rw [eachStep_append, eachStep_cons] at apart
    rcases apart with ⟨earlier, isNew, _⟩
    have safeEarlier : ∀ other ∈ operations, tree.Safe other :=
      fun other member => safe other (List.mem_append_left _ member)
    rcases induction safeEarlier earlier with ⟨state, reached, tracked⟩
    have one : ∃ next, tree.mine includesSearch state operation = some next ∧
      tree.Tracked (operation.activate (activeRules operations)) next :=
      tracked.mine (safe operation (by simp)) isNew
    rcases one with ⟨next, isNext, trackedNext⟩
    refine ⟨next, ?_, ?_⟩
    · rw [runPartial_append, reached, Option.bind_some, runPartial, isNext]
      rfl
    · unfold activeRules
      rw [run_append]
      exact trackedNext

/-- Operations compose just where no rule with the name of an inherited property is
applied to a node or undone. -/
theorem composes_iff (tree : MergedCallTree)
    (includesSearch : String → String → Bool) {operations : List DataMining}
    (apart : NamesApart operations) :
    Composes tree includesSearch operations ↔ ∀ operation ∈ operations, tree.Safe operation := by
  constructor
  · intro composes operation member
    by_contra isUnsafe
    rcases List.append_of_mem member with ⟨before, after, split⟩
    rcases composes (before ++ [operation]) after (by simp [split]) with
      ⟨state, reached, _⟩
    rw [runPartial_append] at reached
    cases earlier : runPartial (tree.mine includesSearch) tree.merged before with
    | none =>
      rw [earlier] at reached
      cases reached
    | some middle =>
      rw [earlier, Option.bind_some, runPartial, mine_of_unsafe isUnsafe]
        at reached
      cases reached
  · intro safe before after split
    have tracked : ∃ state, runPartial (tree.mine includesSearch) tree.merged before = some state ∧
      tree.Tracked (activeRules before) state := by
      refine tree.tracked_run includesSearch ?_ ?_
      · intro operation member
        exact safe operation (by simp [split, member])
      · unfold NamesApart at apart
        rw [split, eachStep_append] at apart
        exact apart.1
    rcases tracked with ⟨state, reached, tracked⟩
    have again := (tree.resetNewAllNode_spec (tree.clearSearchNode state)).1
    refine ⟨state, reached, tracked.accounted, _, resetAllNode_empty state,
      ?_, hangsOnce_reset tree state, ?_⟩
    · exact (tracked.congr again.isStore again.splitMapData).accounted
    · intro noRules entry member
      have accounted := tracked.accounted
      rw [noRules] at accounted
      exact perm_children_of_no_rules accounted member

def callsLibrary (libName : String) : MergedCallTree where
  processes :=
    [.node ⟨0, "app", "", "", 2⟩ [.node ⟨1, "main-1", "", "", 2⟩
      [.node ⟨2, "open", libName, "/system/lib64/", 2⟩ []]]]
  currentTreeList := [1, 2]
  distinct := by simp [merageEntries, preorderAll, preorder]
  listed := by simp [merageEntries, preorderAll, preorder]

/-- A library is pruned, system libraries are hidden, and both are undone. -/
theorem composes_callsLibrary : Composes (callsLibrary "libc.so") (fun _ _ => false)
    [.splitTree "libc.so" false false "", .hideSystemLibrary,
      .undo "libc.so", .undo "/system/"] := by
  refine (composes_iff _ _ ?_).2 ?_
  · simp [NamesApart, DataMining.rule, DataMining.activate, systmeRuleName]
  · intro operation member
    have names : ∀ name ∈ ["libc.so", "/system/"], name ∉ objectPrototypeNames := by decide
    simp only [List.mem_cons, List.not_mem_nil, or_false] at member
    rcases member with rfl | rfl | rfl | rfl
    · rintro rule ⟨⟩
      exact .inl (names "libc.so" (by simp))
    · rintro rule ⟨⟩
      exact .inl (names "/system/" (by simp))
    · exact names "libc.so" (by simp)
    · exact names "/system/" (by simp)

/-- A library by the name `constructor` cannot be charged. -/
theorem not_composes_constructor : NamesApart [.splitTree "constructor" true false ""] ∧
    ¬ Composes (callsLibrary "constructor") (fun _ _ => false)
      [.splitTree "constructor" true false ""] := by
  refine ⟨by simp [NamesApart], ?_⟩
  intro composes
  rcases composes [.splitTree "constructor" true false ""] [] rfl with
    ⟨state, reached, _⟩
  cases reached

end MergedCallTree

end SysAnalyzer.LogicWorker
