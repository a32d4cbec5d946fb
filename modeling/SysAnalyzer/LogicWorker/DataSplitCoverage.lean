import SysAnalyzer.LogicWorker.DataSplit

/-!
# What data mining rules cover

Each of the four recursions hides the nodes that its rule covers, every one of
them once, in preorder.  A rule can be read off a node and those above it, so
what a recursion does is one loop over the entries of the tree.
-/

namespace SysAnalyzer.LogicWorker

open Foundation List
open DataSplit

/-- A rule covers nodes by themselves and those above them. -/
structure MiningRule where
  name : String
  covers : MerageEntry → Bool

def DataMining.rule : DataMining → Option MiningRule
  | .splitTree name isCharge isSymbol _ =>
    some
      { name := name
        covers := fun entry =>
          if isCharge then isNamed name isSymbol entry.2
          else entry.1.any (isNamed name isSymbol) }
  | .hideSystemLibrary =>
    some
      { name := systmeRuleName
        covers := fun entry => !entry.1.tail.isEmpty && isSystemLibrary entry.2 }
  | .hideNumMaxAndMin startNum endNum =>
    some
      { name := numRuleName
        covers := fun entry => !entry.1.tail.isEmpty && isOutOfBounds startNum endNum entry.2 }
  | .undo _ => none
  | .resetAllNode _ => none

/-- The nodes with a property among some entries. -/
def refsOf (covers : MerageEntry → Bool) (entries : List MerageEntry) : List Nat :=
  (entries.filter covers).map fun entry => entry.2.ref

/-- Some nodes are stored for a rule. -/
def storeAll (name : String) (refs : List Nat) (state : DataSplit) : Option DataSplit :=
  refs.foldlM (fun state ref => store name ref state) state

theorem storeAll_append (name : String) (first second : List Nat) (state : DataSplit) :
    storeAll name (first ++ second) state = match storeAll name first state with
      | none => none
      | some next => storeAll name second next := by
  unfold storeAll
  rw [foldlM_append]
  cases first.foldlM (fun state ref => store name ref state) state <;> rfl

theorem storeAll_cons (name : String) (ref : Nat) (refs : List Nat) (state : DataSplit) :
    storeAll name (ref :: refs) state = match store name ref state with
      | none => none
      | some next => storeAll name refs next := by
  unfold storeAll
  rw [foldlM_cons]
  cases store name ref state <;> rfl

theorem refsOf_append (covers : MerageEntry → Bool) (first second : List MerageEntry) :
    refsOf covers (first ++ second) = refsOf covers first ++ refsOf covers second := by
  unfold refsOf
  rw [filter_append, map_append]

mutual

theorem recursionChargeInitTree_eq (name : String) (isSymbol : Bool) (above : List MerageBean) :
    ∀ (state : DataSplit) (tree : MerageTree),
      recursionChargeInitTree name isSymbol state tree = storeAll name
        (refsOf (fun entry => isNamed name isSymbol entry.2) (preorder id above tree)) state
  | state, .node node children => by
    have below := fun next =>
      recursionChargeInitTrees_eq name isSymbol (node :: above) next children
    rw [recursionChargeInitTree, preorder]
    by_cases isCovered : isNamed name isSymbol node = true
    · simp only [isCovered, if_true, below, refsOf, filter_cons, map_cons, id]
      unfold storeAll
      rw [foldlM_cons]
      cases store name node.ref state <;> rfl
    · simp [isCovered, below, refsOf]

theorem recursionChargeInitTrees_eq (name : String) (isSymbol : Bool) (above : List MerageBean) :
    ∀ (state : DataSplit) (trees : List MerageTree),
      recursionChargeInitTrees name isSymbol state trees = storeAll name
        (refsOf (fun entry => isNamed name isSymbol entry.2) (preorderAll id above trees)) state
  | state, [] => rfl
  | state, tree :: trees => by
    rw [recursionChargeInitTrees, preorderAll, refsOf_append, storeAll_append,
      ← recursionChargeInitTree_eq name isSymbol above state tree]
    cases recursionChargeInitTree name isSymbol state tree with
    | none => rfl
    | some next => exact recursionChargeInitTrees_eq name isSymbol above next trees

end

mutual

theorem pruneChild_eq (name : String) (above : List MerageBean) :
    ∀ (state : DataSplit) (tree : MerageTree), pruneChild name state tree =
      storeAll name (refsOf (fun _ => true) (preorder id above tree)) state
  | state, .node node children => by
    have below := fun next => pruneChildren_eq name (node :: above) next children
    rw [pruneChild, preorder]
    simp only [below, refsOf, filter_cons, map_cons, if_true, id]
    refine Eq.trans ?_ (storeAll_cons name node.ref _ state).symm
    cases store name node.ref state <;> rfl

theorem pruneChildren_eq (name : String) (above : List MerageBean) :
    ∀ (state : DataSplit) (trees : List MerageTree), pruneChildren name state trees =
      storeAll name (refsOf (fun _ => true) (preorderAll id above trees)) state
  | state, [] => rfl
  | state, tree :: trees => by
    rw [pruneChildren, preorderAll, refsOf_append, storeAll_append,
      ← pruneChild_eq name above state tree]
    cases pruneChild name state tree with
    | none => rfl
    | some next => exact pruneChildren_eq name above next trees

end

theorem refsOf_any_of_above {covers : MerageBean → Bool}
    {above : List MerageBean} (isCovered : above.any covers = true) (trees : List MerageTree) :
    refsOf (fun entry => entry.1.any covers) (preorderAll id above trees) =
      refsOf (fun _ => true) (preorderAll id above trees) := by
  unfold refsOf
  congr 1
  refine filter_congr ?_
  rintro ⟨place, node⟩ member
  rcases suffix_of_mem_preorderAll member with ⟨first, suffix⟩
  rcases any_eq_true.1 isCovered with ⟨bean, ofAbove, isNode⟩
  exact any_eq_true.2 ⟨bean, suffix.subset (mem_cons_of_mem _ ofAbove), isNode⟩

mutual

/-- `recursionPruneInitTree` stores the nodes that have the name or are below one that
has it. -/
theorem recursionPruneInitTree_eq (name : String) (isSymbol : Bool) :
    ∀ (above : List MerageBean) (_ : above.any (isNamed name isSymbol) = false)
      (state : DataSplit) (tree : MerageTree),
      recursionPruneInitTree name isSymbol state tree = storeAll name
        (refsOf (fun entry => entry.1.any (isNamed name isSymbol)) (preorder id above tree)) state
  | above, uncovered, state, .node node children => by
    rw [recursionPruneInitTree, preorder]
    by_cases isCovered : isNamed name isSymbol node = true
    · have here : (node :: above).any (isNamed name isSymbol) = true := by
        simp [isCovered]
      have below := fun next => pruneChildren_eq name (node :: above) next children
      rw [if_pos isCovered]
      simp only [below, ← refsOf_any_of_above here]
      simp only [refsOf, filter_cons, id, here, if_true, map_cons]
      refine Eq.trans ?_ (storeAll_cons name node.ref _ state).symm
      cases store name node.ref state <;> rfl
    · have here : (node :: above).any (isNamed name isSymbol) = false := by
        simp [isCovered, uncovered]
      have below := recursionPruneInitTrees_eq name isSymbol (node :: above) here state children
      rw [if_neg isCovered, below]
      simp [refsOf, here]

theorem recursionPruneInitTrees_eq (name : String) (isSymbol : Bool) :
    ∀ (above : List MerageBean) (_ : above.any (isNamed name isSymbol) = false)
      (state : DataSplit) (trees : List MerageTree),
      recursionPruneInitTrees name isSymbol state trees = storeAll name
        (refsOf (fun entry => entry.1.any (isNamed name isSymbol)) (preorderAll id above trees))
        state
  | _, _, state, [] => rfl
  | above, uncovered, state, tree :: trees => by
    rw [recursionPruneInitTrees, preorderAll, refsOf_append, storeAll_append,
      ← recursionPruneInitTree_eq name isSymbol above uncovered state tree]
    cases recursionPruneInitTree name isSymbol state tree with
    | none => rfl
    | some next =>
      exact recursionPruneInitTrees_eq name isSymbol above uncovered next
        trees

end

mutual

theorem recursionChargeByRule_eq (name : String) (rule : MerageBean → Bool)
    (above : List MerageBean) : ∀ (state : DataSplit) (tree : MerageTree),
      recursionChargeByRule name rule state tree = storeAll name (refsOf (fun entry => rule entry.2)
        (preorderAll id (tree.data :: above) tree.children)) state
  | state, .node node children => by
    rw [recursionChargeByRule]
    exact recursionChargeChildrenByRule_eq name rule (node :: above) state children

theorem recursionChargeChildrenByRule_eq (name : String)
    (rule : MerageBean → Bool) (above : List MerageBean) :
    ∀ (state : DataSplit) (trees : List MerageTree),
      recursionChargeChildrenByRule name rule state trees = storeAll name
        (refsOf (fun entry => rule entry.2) (preorderAll id above trees)) state
  | state, [] => rfl
  | state, .node node children :: trees => by
    have below := fun next => recursionChargeByRule_eq name rule above next (.node node children)
    have beside := fun next => recursionChargeChildrenByRule_eq name rule above next trees
    rw [recursionChargeChildrenByRule, preorderAll, preorder]
    simp only [below, beside, MergeTree.data_node, MergeTree.children_node,
      refsOf_append, storeAll_append, id]
    by_cases isCovered : rule node = true
    · have here : refsOf (fun entry => rule entry.2)
        ((node :: above, node) :: preorderAll id (node :: above) children) =
        node.ref :: refsOf (fun entry => rule entry.2)
          (preorderAll id (node :: above) children) := by
        simp [refsOf, isCovered]
      simp only [here, storeAll_cons, isCovered, if_true]
      cases store name node.ref state <;> rfl
    · have here : refsOf (fun entry => rule entry.2)
        ((node :: above, node) :: preorderAll id (node :: above) children) =
        refsOf (fun entry => rule entry.2) (preorderAll id (node :: above) children) := by
        simp [refsOf, isCovered]
      simp only [isCovered, Bool.false_eq_true, if_false]
      exact here ▸ rfl

end

/-- The list of a rule, empty where there is none. -/
def DataSplit.listOf (state : DataSplit) (name : String) : List Nat :=
  (state.splitMapData.lookup name).getD []

/-- Nodes are hidden once more each and are at the end of the list of their rule. -/
structure Stored (name : String) (refs : List Nat) (state next : DataSplit) :
    Prop where
  isStore : ∀ ref, next.isStore ref = state.isStore ref + refs.count ref
  listOf : ∀ other, next.listOf other = state.listOf other ++ if other = name then refs else []

theorem Stored.refl (name : String) (state : DataSplit) : Stored name [] state state where
  isStore := by simp
  listOf := by simp

variable {name : String}

theorem Stored.trans {first second : List Nat}
    {state middle next : DataSplit} (before : Stored name first state middle)
    (after : Stored name second middle next) : Stored name (first ++ second) state next where
  isStore := by
    intro ref
    rw [after.isStore, before.isStore, count_append]
    push_cast
    ring
  listOf := by
    intro other
    rw [after.listOf, before.listOf, append_assoc]
    by_cases same : other = name <;> simp [same]

theorem stored_store (isOwn : name ∉ objectPrototypeNames) (ref : Nat) (state : DataSplit) :
    ∃ next, store name ref state = some next ∧ Stored name [ref] state next := by
  refine ⟨_, if_neg isOwn, ?_, ?_⟩
  · intro other
    by_cases same : other = ref
    · simp [same]
    · simp [same, Ne.symm same]
  · intro other
    unfold listOf
    rw [lookup_upsert]
    by_cases same : other = name
    · simp [same]
    · simp [same]

theorem storeAll_isSome {refs : List Nat}
    (isSafe : name ∉ objectPrototypeNames ∨ refs = []) (state : DataSplit) :
    ∃ next, storeAll name refs state = some next ∧ Stored name refs state next := by
  induction refs generalizing state with
  | nil => exact ⟨state, rfl, Stored.refl name state⟩
  | cons ref refs induction =>
    rcases isSafe with isOwn | empty
    · rcases stored_store isOwn ref state with ⟨middle, stored, first⟩
      rcases induction (.inl isOwn) middle with ⟨next, rest, second⟩
      refine ⟨next, ?_, first.trans second⟩
      rw [storeAll_cons, stored]
      exact rest
    · cases empty

theorem storeAll_eq_none {refs : List Nat}
    (isInherited : name ∈ objectPrototypeNames) (nonempty : refs ≠ [])
    (state : DataSplit) : storeAll name refs state = none := by
  cases refs with
  | nil => exact absurd rfl nonempty
  | cons ref refs => rw [storeAll_cons, store, if_pos isInherited]

namespace MergedCallTree

variable (tree : MergedCallTree)

def covered (rule : MiningRule) : List Nat := refsOf rule.covers tree.entries

theorem forEachProcess_spec {name : String} {covers : MerageEntry → Bool}
    {recursion : DataSplit → MerageTree → Option DataSplit} (fromProcess :
      ∀ state process, recursion state process =
        storeAll name (refsOf covers (preorder id [] process)) state) (state : DataSplit) :
    (name ∉ objectPrototypeNames ∨ refsOf covers tree.entries = [] →
      ∃ next, tree.forEachProcess recursion state = some next ∧
        Stored name (refsOf covers tree.entries) state next) ∧
    (name ∈ objectPrototypeNames → refsOf covers tree.entries ≠ [] →
      tree.forEachProcess recursion state = none) := by
  unfold forEachProcess entries merageEntries
  induction tree.processes generalizing state with
  | nil =>
    refine ⟨?_, ?_⟩
    · intro _
      exact ⟨state, rfl, Stored.refl name state⟩
    · intro _ nonempty
      exact absurd rfl nonempty
  | cons process processes induction =>
    rw [preorderAll, refsOf_append, foldlM_cons, fromProcess]
    refine ⟨?_, ?_⟩
    · intro isSafe
      have here : name ∉ objectPrototypeNames ∨ refsOf covers (preorder id [] process) = [] :=
        isSafe.imp_right fun empty => (append_eq_nil_iff.1 empty).1
      have beside : name ∉ objectPrototypeNames ∨
        refsOf covers (preorderAll id [] processes) = [] :=
        isSafe.imp_right fun empty => (append_eq_nil_iff.1 empty).2
      rcases storeAll_isSome here (clearChildren process.data.ref state) with
        ⟨middle, stored, first⟩
      rcases (induction middle).1 beside with ⟨next, rest, second⟩
      have fromState : Stored name (refsOf covers (preorder id [] process))
        state middle := ⟨first.isStore, first.listOf⟩
      refine ⟨next, ?_, fromState.trans second⟩
      rw [stored]
      exact rest
    · intro isInherited nonempty
      by_cases here : refsOf covers (preorder id [] process) = []
      · rcases storeAll_isSome (.inr here)
          (clearChildren process.data.ref state) with ⟨middle, stored, _⟩
        rw [stored]
        refine (induction middle).2 isInherited ?_
        rwa [here, nil_append] at nonempty
      · rw [storeAll_eq_none isInherited here]
        rfl

theorem refsOf_preorder_of_tail (rule : MerageBean → Bool) (process : MerageTree) :
    refsOf (fun entry => !entry.1.tail.isEmpty && rule entry.2) (preorder id [] process) =
      refsOf (fun entry => rule entry.2) (preorderAll id [process.data] process.children) := by
  cases process with
  | node node children =>
    have below : ∀ entry ∈ preorderAll id [node] children,
      (!entry.1.tail.isEmpty && rule entry.2) = rule entry.2 := by
      rintro ⟨place, other⟩ member
      rcases suffix_of_mem_preorderAll member with ⟨first, before, rfl⟩
      cases before <;> simp
    have kept := filter_congr below
    simp only [preorder, refsOf, id, filter_cons, kept, tail_cons,
      isEmpty_nil, Bool.not_true, Bool.false_and, Bool.false_eq_true,
      if_false, MergeTree.data_node, MergeTree.children_node]

/-- What an operation that applies a rule does, before the tree is hung together. -/
def applyRule (state : DataSplit) : DataMining → Option DataSplit
  | .splitTree name isCharge isSymbol _ =>
    tree.forEachProcess (if isCharge then recursionChargeInitTree name isSymbol
      else recursionPruneInitTree name isSymbol)
      state
  | .hideSystemLibrary => tree.hideSystemLibrary state
  | .hideNumMaxAndMin startNum endNum => tree.hideNumMaxAndMin startNum endNum state
  | .undo _ => some state
  | .resetAllNode _ => some state

theorem applyRule_spec {operation : DataMining} {rule : MiningRule}
    (isRule : operation.rule = some rule) (state : DataSplit) :
    (rule.name ∉ objectPrototypeNames ∨ tree.covered rule = [] →
      ∃ next, tree.applyRule state operation = some next ∧
        Stored rule.name (tree.covered rule) state next) ∧
    (rule.name ∈ objectPrototypeNames → tree.covered rule ≠ [] →
      tree.applyRule state operation = none) := by
  cases operation with
  | splitTree name isCharge isSymbol searchValue =>
    cases isRule
    refine tree.forEachProcess_spec ?_ state
    intro state process
    cases isCharge with
    | true => exact recursionChargeInitTree_eq name isSymbol [] state process
    | false => exact recursionPruneInitTree_eq name isSymbol [] rfl state process
  | hideSystemLibrary =>
    cases isRule
    refine tree.forEachProcess_spec ?_ state
    intro state process
    rw [recursionChargeByRule_eq systmeRuleName isSystemLibrary [], refsOf_preorder_of_tail]
  | hideNumMaxAndMin startNum endNum =>
    cases isRule
    refine tree.forEachProcess_spec ?_ state
    intro state process
    rw [recursionChargeByRule_eq numRuleName (isOutOfBounds startNum endNum)
      [], refsOf_preorder_of_tail]
  | undo name => cases isRule
  | resetAllNode searchValue => cases isRule

end MergedCallTree

end SysAnalyzer.LogicWorker
