import SysAnalyzer.JsHeap.Allocation

/-!
# Stacks of the functions that allocate

`getNodeStack` follows the parents of a node in the list of unique nodes, and
`getParent` shows the parents of such a node, taken from the nodes of the tree.
Both read parents that have been put together, so a call can go on without end
and a parent can be missing; a bound on the depth of the calls stands for the
stack of the machine.
-/

namespace SysAnalyzer.JsHeap

open List Option

/-- `getNodeById` in the list of unique nodes; `none` for `null`. -/
def getNodeById (bottomUpList : List AllocationFunction) (id : Int) : Option AllocationFunction :=
  bottomUpList.find? fun func => decide (func.id = id)

section Stacks

variable {Info : Type} (functionInfos : List Info)

/-- `functionInfos[index]`; `none` for `undefined`. -/
def functionInfoAt (index : Int) : Option Info :=
  if 0 ≤ index then functionInfos[index.toNat]? else none

/--
`getFunctionStack`: what it pushes, when the calls are no deeper than `depth`.
-/
def getFunctionStack (bottomUpList : List AllocationFunction) :
    (depth : Nat) → AllocationFunction → Option (List (Option Info))
  | 0, _ => none
  | depth + 1, node => do
    let parents ← node.parentsId.mapM fun parentId =>
      match getNodeById bottomUpList parentId with
      | none => some []
      | some parentNode => getFunctionStack bottomUpList depth parentNode
    some (functionInfoAt functionInfos node.functionIndex :: parents.flatten)

/-- `getNodeStack`, when the calls are no deeper than `depth`. -/
def getNodeStack (bottomUpList : List AllocationFunction) (depth : Nat)
    (allocationNodeId : Int) : Option (List (Option Info)) :=
  match getNodeById bottomUpList allocationNodeId with
  | none => some []
  | some currentNode => getFunctionStack functionInfos bottomUpList depth currentNode

end Stacks

/-- What can stop a call: a member of `undefined`, or calls that are too deep. -/
inductive Failure where
  | typeError
  | rangeError

inductive ShownFunction where
  | mk (function : AllocationFunction) (parents : List ShownFunction)

/-- `clone`: the number of the function and the combined ids are not copied. -/
def AllocationFunction.clone (node : AllocationFunction) : AllocationFunction where
  parentsId := node.parentsId
  id := node.id
  name := node.name
  scriptName := node.scriptName
  scriptId := node.scriptId
  line := node.line
  column := node.column
  count := node.count
  size := node.size
  liveCount := node.liveCount
  liveSize := node.liveSize
  hasParent := node.hasParent

def AllocationFunction.takeSizes (children node : AllocationFunction) : AllocationFunction :=
  { children with
    size := node.size
    count := node.count
    liveSize := node.liveSize
    liveCount := node.liveCount }

/-- `traceNodes[childrenId - 1].clone()`, with the sizes of a node. -/
def cloneFor (traceNodes : List AllocationFunction) (node : AllocationFunction) (childrenId : Int) :
    Except Failure AllocationFunction :=
  match if 1 ≤ childrenId then traceNodes[(childrenId - 1).toNat]? else none with
  | none => .error .typeError
  | some children => .ok (children.clone.takeSizes node)

/--
`getParent`: the parents it pushes, when the calls are no deeper than `depth`.
The test of the second branch sets the length to 1 and always holds.
-/
def getParent (traceNodes : List AllocationFunction) :
    (depth : Nat) → AllocationFunction → Except Failure (List ShownFunction)
  | 0, _ => .error .rangeError
  | depth + 1, node =>
    if node.hasParent then
      match node.parentsId with
      | [] => .error .typeError
      | [childrenId] => do
        let children ← cloneFor traceNodes node childrenId
        let parents ← getParent traceNodes depth children
        .ok [.mk children parents]
      | several => do
        let parents ← several.mapM (cloneFor traceNodes node)
        .ok (parents.map fun children => .mk children [])
    else .ok []

inductive PathFrom (rows : List TraceRow) : TraceRow → List TraceRow → Prop
  | root
    {row : TraceRow}
    (isRoot : row.parentId = -1 ∨ row.parentId = 0) :
    PathFrom rows row [row]
  | parent
    {row parent : TraceRow}
    {path : List TraceRow}
    (isPlace : 1 ≤ row.parentId)
    (atPlace : rows[(row.parentId - 1).toNat]? = some parent)
    (rest : PathFrom rows parent path) :
    PathFrom rows row (row :: path)

/-- A trace tree: the ids count the rows, and every row has a path to a root. -/
structure TraceTree where
  rows : List TraceRow
  ids : ∀ (place : Nat) (row : TraceRow), rows[place]? = some row → row.id = place + 1
  rooted : ∀ row ∈ rows, ∃ path, PathFrom rows row path

/--
Every row has the stack of its path, and the parents of every function in the
list can be shown.
-/
structure StacksRight {Info : Type} (functionInfos : List Info)
    (fileId : Int) (tree : TraceTree) : Prop where
  stackOf : ∀ row ∈ tree.rows, ∀ path, PathFrom tree.rows row path → ∃ depth,
    getNodeStack functionInfos (getFunctionList (loadTraceTree fileId tree.rows)) depth row.id =
      some (path.map fun above => functionInfoAt functionInfos above.functionInfoIndex)
  parentsOf : ∀ node ∈ getFunctionList (loadTraceTree fileId tree.rows), ∃ depth shown,
    getParent (combineNodes (loadTraceTree fileId tree.rows)).traceNodes depth node = .ok shown

namespace TraceTree

variable (tree : TraceTree)

theorem eq_of_id_eq {row other : TraceRow}
    (member : row ∈ tree.rows) (otherMember : other ∈ tree.rows)
    (same : row.id = other.id) : row = other := by
  rcases getElem?_of_mem member with ⟨place, atPlace⟩
  rcases getElem?_of_mem otherMember with ⟨otherPlace, atOther⟩
  rw [tree.ids place row atPlace, tree.ids otherPlace other atOther] at same
  have samePlace : place = otherPlace := by omega
  rw [samePlace, atOther, some.injEq] at atPlace
  exact atPlace.symm

theorem one_le_id {row : TraceRow} (member : row ∈ tree.rows) : 1 ≤ row.id := by
  rcases getElem?_of_mem member with ⟨place, atPlace⟩
  rw [tree.ids place row atPlace]
  omega

theorem id_of_parent {row parent : TraceRow} (isPlace : 1 ≤ row.parentId)
    (atPlace : tree.rows[(row.parentId - 1).toNat]? = some parent) : parent.id = row.parentId := by
  rw [tree.ids _ parent atPlace]
  omega

end TraceTree

def finishedNode (fileId : Int) (row : TraceRow) : AllocationFunction :=
  { (traceNodeOf fileId row).setHasParent with combineId := {row.id} }

section Distinct

variable {tree : TraceTree} (fileId : Int)
variable (distinct : (tree.rows.map TraceRow.key).Nodup)

include distinct

variable {row : TraceRow}

theorem combined_of_distinct (member : row ∈ tree.rows) :
    combined (loadTraceTree fileId tree.rows) (traceNodeOf fileId row) =
      finishedNode fileId row := by
  have alone : withKey (loadTraceTree fileId tree.rows) row.key = [traceNodeOf fileId row] := by
    rcases append_of_mem member with ⟨before, behind, split⟩
    rw [split, map_append, map_cons, nodup_append, nodup_cons] at distinct
    have isKey : decide ((traceNodeOf fileId row).key = row.key) = true := decide_eq_true rfl
    rw [split, loadTraceTree, map_append, map_cons, withKey,
      filter_append, filter_cons, if_pos isKey]
    have noneBefore : (before.map (traceNodeOf fileId)).filter
      (fun node => decide (node.key = row.key)) = [] := by
      rw [filter_eq_nil_iff]
      intro node isNode
      rcases mem_map.1 isNode with ⟨other, inBefore, rfl⟩
      rw [decide_eq_true_eq]
      exact distinct.2.2 other.key (mem_map_of_mem inBefore) row.key mem_cons_self
    have noneBehind : (behind.map (traceNodeOf fileId)).filter
      (fun node => decide (node.key = row.key)) = [] := by
      rw [filter_eq_nil_iff]
      intro node isNode
      rcases mem_map.1 isNode with ⟨other, inBehind, rfl⟩
      rw [decide_eq_true_eq]
      intro same
      apply distinct.2.1.1
      rw [← same]
      exact mem_map_of_mem inBehind
    rw [noneBefore, noneBehind]
    rfl
  have group : withKey (loadTraceTree fileId tree.rows)
    (traceNodeOf fileId row).key = [traceNodeOf fileId row] := alone
  rw [combined, group]
  simp [finishedNode, AllocationFunction.setHasParent, traceNodeOf]

theorem keyMap_of_distinct {place : Nat} (atPlace : tree.rows[place]? = some row) :
    (combineNodes (loadTraceTree fileId tree.rows)).keyMap
      (traceNodeOf fileId row).key = some place := by
  have combines := combineNodes_combines (loadTraceTree fileId tree.rows)
    (fresh_loadTraceTree fileId tree.rows)
  have member : traceNodeOf fileId row ∈ loadTraceTree fileId tree.rows :=
    mem_map_of_mem (mem_of_getElem? atPlace)
  rcases ne_none_iff_exists'.1 (combines.known _ member) with
    ⟨other, found⟩
  rcases combines.keyOf _ _ found with ⟨node, isNode, isKey⟩
  rw [loadTraceTree, getElem?_map, map_eq_some_iff] at isNode
  rcases isNode with ⟨otherRow, atOther, rfl⟩
  have inRange := (List.getElem?_eq_some_iff.1 atOther).1
  have samePlace : other = place := by
    apply (getElem?_inj (by rwa [length_map]) distinct).1
    rw [getElem?_map, getElem?_map, atOther, atPlace]
    exact congrArg some isKey
  rw [found, samePlace]

theorem traceNodes_of_distinct : (combineNodes (loadTraceTree fileId tree.rows)).traceNodes =
    tree.rows.map (finishedNode fileId) := by
  have combines := combineNodes_combines (loadTraceTree fileId tree.rows)
    (fresh_loadTraceTree fileId tree.rows)
  apply ext_getElem?
  intro place
  rw [getElem?_map]
  cases atPlace : tree.rows[place]? with
  | none =>
    rw [map_none, getElem?_eq_none_iff, combines.length, loadTraceTree, length_map]
    exact getElem?_eq_none_iff.1 atPlace
  | some row =>
    have isNode : (loadTraceTree fileId tree.rows)[place]? = some (traceNodeOf fileId row) := by
      rw [loadTraceTree, getElem?_map, atPlace, map_some]
    rw [combines.nodes place _ isNode, if_pos (keyMap_of_distinct fileId distinct atPlace),
      combined_of_distinct fileId distinct (mem_of_getElem? atPlace),
      map_some]

theorem mem_getFunctionList_of_distinct {entry : AllocationFunction} :
    entry ∈ getFunctionList (loadTraceTree fileId tree.rows) ↔
      ∃ row ∈ tree.rows, entry = finishedNode fileId row := by
  have combines := combineNodes_combines (loadTraceTree fileId tree.rows)
    (fresh_loadTraceTree fileId tree.rows)
  rw [getFunctionList, (sortBySize_perm _).mem_iff, combines.mem_uniqueNodes]
  constructor
  · rintro ⟨place, node, isNode, -, rfl⟩
    rcases mem_map.1 (mem_of_getElem? isNode) with
      ⟨row, member, rfl⟩
    exact ⟨row, member, combined_of_distinct fileId distinct member⟩
  · rintro ⟨row, member, rfl⟩
    rcases getElem?_of_mem member with ⟨place, atPlace⟩
    refine ⟨place, traceNodeOf fileId row, ?_, keyMap_of_distinct fileId distinct atPlace,
      (combined_of_distinct fileId distinct member).symm⟩
    rw [loadTraceTree, getElem?_map, atPlace, map_some]

theorem getNodeById_of_distinct (member : row ∈ tree.rows) :
    getNodeById (getFunctionList (loadTraceTree fileId tree.rows)) row.id =
      some (finishedNode fileId row) := by
  have inList := (mem_getFunctionList_of_distinct fileId distinct).2 ⟨row, member, rfl⟩
  cases found : getNodeById (getFunctionList (loadTraceTree fileId tree.rows)) row.id with
  | none =>
    have notHere := find?_eq_none.1 found _ inList
    exact absurd (decide_eq_true rfl) notHere
  | some entry =>
    have isEntry := mem_of_find?_eq_some found
    unfold getNodeById at found
    have isId := find?_some found
    rw [decide_eq_true_eq] at isId
    rcases (mem_getFunctionList_of_distinct fileId distinct).1 isEntry with
      ⟨other, otherMember, rfl⟩
    rw [tree.eq_of_id_eq otherMember member isId]

theorem getNodeById_root (parentId : Int) (isRoot : parentId < 1) :
    getNodeById (getFunctionList (loadTraceTree fileId tree.rows)) parentId = none := by
  rw [getNodeById, find?_eq_none]
  intro entry member
  rcases (mem_getFunctionList_of_distinct fileId distinct).1 member with
    ⟨row, inRows, rfl⟩
  rw [decide_eq_true_eq]
  have positive := tree.one_le_id inRows
  intro same
  change row.id = parentId at same
  omega

theorem getFunctionStack_of_path {Info : Type} (functionInfos : List Info)
    {path : List TraceRow} (isPath : PathFrom tree.rows row path) :
    getFunctionStack functionInfos (getFunctionList (loadTraceTree fileId tree.rows)) path.length
      (finishedNode fileId row) = some (path.map fun above =>
      functionInfoAt functionInfos above.functionInfoIndex) := by
  induction isPath with
  | @root row isRoot =>
    have missing := getNodeById_root fileId distinct row.parentId (by omega)
    change (do
      let parents ← [row.parentId].mapM _
      some (_ :: flatten parents)) = _
    simp [missing]
    rfl
  | @parent row parent path isPlace atPlace rest induction =>
    have isParent := getNodeById_of_distinct fileId distinct (mem_of_getElem? atPlace)
    rw [tree.id_of_parent isPlace atPlace] at isParent
    change (do
      let parents ← [row.parentId].mapM _
      some (_ :: flatten parents)) = _
    simp [isParent, induction]
    rfl

theorem getParent_of_path (noZero : ∀ row ∈ tree.rows, row.parentId ≠ 0) {path : List TraceRow}
    (isPath : PathFrom tree.rows row path) (member : row ∈ tree.rows) :
    ∀ node : AllocationFunction, node.parentsId = [row.parentId] →
      node.hasParent = decide (row.parentId ≠ -1) → ∃ shown,
        getParent (combineNodes (loadTraceTree fileId tree.rows)).traceNodes
          path.length node = .ok shown := by
  induction isPath with
  | @root row isRoot =>
    intro node _ hasParent
    have isMinusOne : row.parentId = -1 := isRoot.resolve_right (noZero row member)
    rw [isMinusOne] at hasParent
    refine ⟨[], ?_⟩
    rw [length_singleton, getParent, hasParent]
    rfl
  | @parent row parent path isPlace atPlace rest induction =>
    intro node isParents hasParent
    have notRoot : row.parentId ≠ -1 := by omega
    rw [decide_eq_true notRoot] at hasParent
    have atNode : (combineNodes (loadTraceTree fileId tree.rows)).traceNodes[
      (row.parentId - 1).toNat]? =
      some (finishedNode fileId parent) := by
      rw [traceNodes_of_distinct fileId distinct, getElem?_map, atPlace, map_some]
    have cloned : cloneFor (combineNodes (loadTraceTree fileId tree.rows)).traceNodes node
      row.parentId =
      .ok ((finishedNode fileId parent).clone.takeSizes node) := by
      rw [cloneFor, if_pos isPlace, atNode]
    have isParent : ∀ parentId : Int, (if parentId = -1 then false else true) =
      decide (parentId ≠ -1) := by
      intro parentId
      by_cases isRoot : parentId = -1 <;> simp [isRoot]
    rcases induction (mem_of_getElem? atPlace)
      ((finishedNode fileId parent).clone.takeSizes node) rfl
      (isParent parent.parentId) with
      ⟨shown, completes⟩
    rw [length_cons, getParent, hasParent, if_pos rfl, isParents]
    dsimp only
    rw [cloned]
    refine ⟨[.mk ((finishedNode fileId parent).clone.takeSizes node) shown], ?_⟩
    change (do
      let parents ← getParent _ _ _
      Except.ok [ShownFunction.mk _ parents]) = _
    rw [completes]
    rfl

end Distinct

theorem getNodeById_eq_none (tree : TraceTree) (fileId : Int) {place : Nat} {row : TraceRow}
    (atPlace : tree.rows[place]? = some row)
    (notUnique : (combineNodes (loadTraceTree fileId tree.rows)).keyMap
      (traceNodeOf fileId row).key ≠ some place) :
    getNodeById (getFunctionList (loadTraceTree fileId tree.rows)) row.id = none := by
  have combines := combineNodes_combines (loadTraceTree fileId tree.rows)
    (fresh_loadTraceTree fileId tree.rows)
  rw [getNodeById, find?_eq_none]
  intro entry inList
  rw [getFunctionList, (sortBySize_perm _).mem_iff, combines.mem_uniqueNodes] at inList
  rcases inList with ⟨other, node, isNode, isUnique, rfl⟩
  rw [loadTraceTree, getElem?_map, map_eq_some_iff] at isNode
  rcases isNode with ⟨otherRow, atOther, rfl⟩
  rw [decide_eq_true_eq]
  intro same
  change otherRow.id = row.id at same
  have sameRow := tree.eq_of_id_eq (mem_of_getElem? atOther) (mem_of_getElem? atPlace) same
  rw [tree.ids other otherRow atOther, tree.ids place row atPlace] at same
  have samePlace : other = place := by omega
  rw [sameRow, samePlace] at isUnique
  exact notUnique isUnique

theorem PathFrom.ne_nil {rows : List TraceRow} {row : TraceRow}
    {path : List TraceRow} (isPath : PathFrom rows row path) : path ≠ [] := by
  cases isPath with
  | root isRoot => exact cons_ne_nil _ _
  | parent isPlace atPlace rest => exact cons_ne_nil _ _

section Right

variable {Info : Type} {functionInfos : List Info} {fileId : Int}
variable {tree : TraceTree}

section

variable (right : StacksRight functionInfos fileId tree)
include right

theorem StacksRight.unique {place : Nat} {row : TraceRow} (atPlace : tree.rows[place]? = some row) :
    (combineNodes (loadTraceTree fileId tree.rows)).keyMap
      (traceNodeOf fileId row).key = some place := by
  by_contra notUnique
  have member := mem_of_getElem? atPlace
  rcases tree.rooted row member with ⟨path, isPath⟩
  rcases right.stackOf row member path isPath with ⟨depth, isStack⟩
  rw [getNodeStack, getNodeById_eq_none tree fileId atPlace notUnique,
    some.injEq, eq_comm, map_eq_nil_iff] at isStack
  exact isPath.ne_nil isStack

theorem StacksRight.distinct : (tree.rows.map TraceRow.key).Nodup := by
  rw [List.Nodup, pairwise_map, pairwise_iff_getElem]
  intro first second inRange inRange' less same
  have isFirst := right.unique (getElem?_eq_getElem inRange)
  have isSecond := right.unique (getElem?_eq_getElem inRange')
  have sameKey : (traceNodeOf fileId tree.rows[first]).key =
    (traceNodeOf fileId tree.rows[second]).key := same
  rw [sameKey, isSecond, some.injEq] at isFirst
  omega

theorem StacksRight.noZero : ∀ row ∈ tree.rows, row.parentId ≠ 0 := by
  intro row member isZero
  have inList := (mem_getFunctionList_of_distinct fileId right.distinct).2 ⟨row, member, rfl⟩
  rcases right.parentsOf _ inList with ⟨depth, shown, completes⟩
  have isParents : (finishedNode fileId row).parentsId = [0] := by
    rw [← isZero]
    rfl
  have hasParent : (finishedNode fileId row).hasParent = true := by
    change (if row.parentId = -1 then false else true) = true
    rw [isZero]
    rfl
  cases depth with
  | zero => cases completes
  | succ depth =>
    rw [getParent, hasParent, if_pos rfl, isParents] at completes
    cases completes

end

end Right

/--
The stacks of a tree are right exactly when no two nodes have one key and no
root has the parent 0.
-/
theorem stacksRight_iff {Info : Type} (functionInfos : List Info)
    (fileId : Int) (tree : TraceTree) :
    StacksRight functionInfos fileId tree ↔ (tree.rows.map TraceRow.key).Nodup ∧
      ∀ row ∈ tree.rows, row.parentId ≠ 0 := by
  constructor
  · intro right
    exact ⟨right.distinct, right.noZero⟩
  · rintro ⟨distinct, noZero⟩
    constructor
    · intro row member path isPath
      refine ⟨path.length, ?_⟩
      rw [getNodeStack, getNodeById_of_distinct fileId distinct member]
      exact getFunctionStack_of_path fileId distinct functionInfos isPath
    · intro node inList
      rcases (mem_getFunctionList_of_distinct fileId distinct).1 inList with
        ⟨row, member, rfl⟩
      rcases tree.rooted row member with ⟨path, isPath⟩
      refine ⟨path.length, ?_⟩
      apply getParent_of_path fileId distinct noZero isPath member
      · rfl
      · change (if row.parentId = -1 then false else true) = _
        by_cases isRoot : row.parentId = -1 <;> simp [isRoot]

def recursiveTree : TraceTree where
  rows := [⟨1, "f", "", 0, 0, 0, 0, 0, 0, 0, -1, 0⟩, ⟨2, "f", "", 0, 0, 0, 0, 0, 0, 0, 1, 0⟩]
  ids := by
    intro place row atPlace
    match place with
    | 0 => cases atPlace; rfl
    | 1 => cases atPlace; rfl
  rooted := by
    have first : PathFrom [⟨1, "f", "", 0, 0, 0, 0, 0, 0, 0, -1, 0⟩,
      ⟨2, "f", "", 0, 0, 0, 0, 0, 0, 0, 1, 0⟩]
      ⟨1, "f", "", 0, 0, 0, 0, 0, 0, 0, -1, 0⟩
      [⟨1, "f", "", 0, 0, 0, 0, 0, 0, 0, -1, 0⟩] :=
      .root (Or.inl rfl)
    intro row member
    simp only [mem_cons, not_mem_nil, or_false] at member
    rcases member with rfl | rfl
    · exact ⟨_, first⟩
    · exact ⟨_, .parent (by decide) rfl first⟩

theorem not_stacksRight_recursiveTree : ¬ StacksRight [()] 0 recursiveTree := by
  intro right
  have missing : getNodeById (getFunctionList (loadTraceTree 0 recursiveTree.rows)) 2 = none := by
    decide +kernel
  have inner : (⟨2, "f", "", 0, 0, 0, 0, 0, 0, 0, 1, 0⟩ : TraceRow) ∈ recursiveTree.rows := by
    simp [recursiveTree]
  rcases recursiveTree.rooted _ inner with ⟨path, isPath⟩
  rcases right.stackOf _ inner path isPath with ⟨depth, isStack⟩
  rw [getNodeStack, missing, some.injEq, eq_comm, map_eq_nil_iff] at isStack
  exact isPath.ne_nil isStack

end SysAnalyzer.JsHeap
