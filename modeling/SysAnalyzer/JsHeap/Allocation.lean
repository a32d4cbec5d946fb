import Mathlib

/-!
# Functions that allocate

The nodes of a trace tree are calls of functions.  `setBottomUpTree` puts the
nodes of one function together: the first node with a key is kept in a list and
takes the sizes, the ids and the parents of the later ones, while the nodes of
the tree stay where they are.  The key is the name of the function with its
number written behind it.
-/

namespace SysAnalyzer.JsHeap

open List Function

structure TraceRow where
  id : Int
  name : String
  scriptName : String
  scriptId : Int
  line : Int
  column : Int
  count : Int
  size : Int
  liveCount : Int
  liveSize : Int
  parentId : Int
  functionInfoIndex : Int

/-- `AllocationFunction`, without the parents that are shown below it. -/
structure AllocationFunction where
  fileId : Int := -1
  functionIndex : Int := -1
  parentsId : List Int := []
  combineId : Finset Int := ∅
  id : Int
  name : String
  scriptName : String
  scriptId : Int
  line : Int
  column : Int
  count : Int
  size : Int
  liveCount : Int
  liveSize : Int
  hasParent : Bool

/-- The body of `loadTraceTree` for one row. -/
def traceNodeOf (fileId : Int) (row : TraceRow) : AllocationFunction where
  fileId := fileId
  functionIndex := row.functionInfoIndex
  parentsId := [row.parentId]
  id := row.id
  name := row.name
  scriptName := row.scriptName
  scriptId := row.scriptId
  line := row.line
  column := row.column
  count := row.count
  size := row.size
  liveCount := row.liveCount
  liveSize := row.liveSize
  hasParent := false

def loadTraceTree (fileId : Int) (rows : List TraceRow) : List AllocationFunction :=
  rows.map (traceNodeOf fileId)

namespace AllocationFunction

/-- The key under which nodes are put together. -/
def key (node : AllocationFunction) : String := node.name ++ toString node.functionIndex

def pair (node : AllocationFunction) : String × Int := (node.name, node.functionIndex)

/-- What `setBottomUpTree` finds out about the parents of a node. -/
def setHasParent (node : AllocationFunction) : AllocationFunction :=
  { node with
    hasParent :=
      match node.parentsId with
      | [] => false
      | [parentId] => if parentId = -1 then false else true
      | _ => true }

def combine (uniqueNode node : AllocationFunction) : AllocationFunction :=
  { uniqueNode with
    size := uniqueNode.size + node.size
    count := uniqueNode.count + node.count
    liveSize := uniqueNode.liveSize + node.liveSize
    liveCount := uniqueNode.liveCount + node.liveCount
    parentsId := uniqueNode.parentsId ++ node.parentsId
    combineId := insert node.id (insert uniqueNode.id uniqueNode.combineId) }

end AllocationFunction

/--
`AllocationLogic` between two nodes: the nodes that are done, and the places of
the unique ones in the order of the tree and by their keys.
-/
structure BottomUpTree where
  traceNodes : List AllocationFunction
  bottomUpList : List Nat
  keyMap : String → Option Nat

namespace BottomUpTree

/-- Nothing is done. -/
def empty : BottomUpTree := ⟨[], [], fun _ => none⟩

/-- The body of the loop of `setBottomUpTree`. -/
def addNode (tree : BottomUpTree) (traceNode : AllocationFunction) : BottomUpTree :=
  let node := traceNode.setHasParent
  match tree.keyMap node.key with
  | some unique =>
    { tree with
      traceNodes :=
        tree.traceNodes.modify unique (fun uniqueNode => uniqueNode.combine node) ++ [node] }
  | none =>
    { traceNodes :=
        tree.traceNodes ++
          [{ node with combineId := insert node.id node.combineId }]
      bottomUpList := tree.bottomUpList ++ [tree.traceNodes.length]
      keyMap := Function.update tree.keyMap node.key tree.traceNodes.length }

end BottomUpTree

/-- `setBottomUpTree`, before the list is sorted. -/
def combineNodes (traceNodes : List AllocationFunction) : BottomUpTree :=
  traceNodes.foldl BottomUpTree.addNode .empty

def uniqueNodes (tree : BottomUpTree) : List AllocationFunction :=
  tree.bottomUpList.filterMap fun place => tree.traceNodes[place]?

/-- `bottomUpList.sort((a, b) => b.size - a.size)`. -/
def sortBySize (nodes : List AllocationFunction) : List AllocationFunction :=
  nodes.mergeSort fun a b => decide (b.size - a.size ≤ 0)

/-- `getFunctionList` behind `setBottomUpTree`. -/
def getFunctionList (traceNodes : List AllocationFunction) : List AllocationFunction :=
  sortBySize (uniqueNodes (combineNodes traceNodes))

def withKey (traceNodes : List AllocationFunction) (key : String) : List AllocationFunction :=
  traceNodes.filter fun node => decide (node.key = key)

/-- What a unique node has become. -/
def combined (traceNodes : List AllocationFunction)
    (node : AllocationFunction) : AllocationFunction :=
  let group := withKey traceNodes node.key
  { node.setHasParent with
    size := (group.map AllocationFunction.size).sum
    count := (group.map AllocationFunction.count).sum
    liveSize := (group.map AllocationFunction.liveSize).sum
    liveCount := (group.map AllocationFunction.liveCount).sum
    parentsId := group.flatMap AllocationFunction.parentsId
    combineId := (group.map AllocationFunction.id).toFinset }

variable {traceNodes : List AllocationFunction}

theorem withKey_concat (traceNodes : List AllocationFunction) (node : AllocationFunction)
    (key : String) : withKey (traceNodes ++ [node]) key =
      withKey traceNodes key ++ if node.key = key then [node] else [] := by
  rw [withKey, filter_append, withKey]
  by_cases same : node.key = key
  · simp [same]
  · simp [same]

variable {node : AllocationFunction}

theorem combined_concat_of_ne {other : AllocationFunction} (different : node.key ≠ other.key) :
    combined (traceNodes ++ [node]) other = combined traceNodes other := by
  rw [combined, combined, withKey_concat, if_neg different, append_nil]

theorem withKey_eq_nil {key : String} (absent : ∀ node ∈ traceNodes, node.key ≠ key) :
    withKey traceNodes key = [] := by
  rw [withKey, filter_eq_nil_iff]
  simpa using absent

theorem combined_concat_self (fresh : node.combineId = ∅)
    (absent : ∀ other ∈ traceNodes, other.key ≠ node.key) : combined (traceNodes ++ [node]) node =
      { node.setHasParent with combineId := insert node.id node.combineId } := by
  rw [combined, withKey_concat, if_pos rfl, withKey_eq_nil absent]
  simp [AllocationFunction.setHasParent, fresh]

theorem combined_concat_of_eq {other : AllocationFunction} (member : other ∈ traceNodes)
    (same : node.key = other.key) : combined (traceNodes ++ [node]) other =
      (combined traceNodes other).combine node.setHasParent := by
  have inGroup : other.id ∈ ((withKey traceNodes other.key).map
    AllocationFunction.id).toFinset := by
    rw [mem_toFinset, withKey]
    exact mem_map_of_mem (mem_filter.2 ⟨member, decide_eq_true rfl⟩)
  rw [combined, withKey_concat, if_pos same]
  simp only [combined, AllocationFunction.combine,
    AllocationFunction.setHasParent, map_append, map_cons,
    map_nil, sum_append, sum_singleton, flatMap_append,
    flatMap_cons, flatMap_nil, append_nil,
    Finset.insert_eq_of_mem inGroup]
  congr 1
  ext id
  rw [mem_toFinset, Finset.mem_insert, mem_toFinset, mem_append, mem_singleton, or_comm]

/--
The unique nodes are what is combined from their keys, and every key of a node
has one.
-/
structure Combines (traceNodes : List AllocationFunction)
    (tree : BottomUpTree) : Prop where
  length : tree.traceNodes.length = traceNodes.length
  nodes : ∀ (place : Nat) (node : AllocationFunction),
    traceNodes[place]? = some node → tree.traceNodes[place]? =
      some (if tree.keyMap node.key = some place then
        combined traceNodes node else node.setHasParent)
  keyOf : ∀ (key : String) (place : Nat), tree.keyMap key = some place →
    ∃ node, traceNodes[place]? = some node ∧ node.key = key
  known : ∀ node ∈ traceNodes, tree.keyMap node.key ≠ none
  places : ∀ place, place ∈ tree.bottomUpList ↔ ∃ key, tree.keyMap key = some place
  distinct : tree.bottomUpList.Nodup

theorem combines_empty : Combines [] .empty where
  length := rfl
  nodes place node atPlace := by cases atPlace
  keyOf key place found := by cases found
  known node member := by cases member
  places place := by simp [BottomUpTree.empty]
  distinct := nodup_nil

section

variable {tree : BottomUpTree} (combines : Combines traceNodes tree)
include combines

theorem Combines.lt_length {key : String} {place : Nat} (found : tree.keyMap key = some place) :
    place < traceNodes.length := by
  rcases combines.keyOf key place found with ⟨node, atPlace, -⟩
  exact (List.getElem?_eq_some_iff.1 atPlace).1

/-- A node of a known key is added to the entry of the key. -/
theorem Combines.addNode_known {unique : Nat} (found : tree.keyMap node.key = some unique) :
    Combines (traceNodes ++ [node]) (tree.addNode node) := by
  have sameKey : node.setHasParent.key = node.key := rfl
  have added : tree.addNode node =
    { tree with
      traceNodes :=
        tree.traceNodes.modify unique (fun uniqueNode =>
          uniqueNode.combine node.setHasParent) ++ [node.setHasParent] } := by
    rw [BottomUpTree.addNode, sameKey, found]
  have inRange := combines.lt_length found
  rw [added]
  constructor
  · rw [length_append, length_modify, combines.length, length_append]
    rfl
  · intro place other atPlace
    rcases lt_or_ge place traceNodes.length with before | atEnd
    · rw [getElem?_append_left before] at atPlace
      have inTree : place < (tree.traceNodes.modify unique fun uniqueNode =>
        uniqueNode.combine node.setHasParent).length := by
        rw [length_modify, combines.length]
        exact before
      rw [getElem?_append_left inTree, getElem?_modify,
        combines.nodes place other atPlace]
      by_cases isUnique : tree.keyMap other.key = some place
      · rw [if_pos isUnique, if_pos isUnique]
        by_cases same : node.key = other.key
        · rw [same, isUnique, Option.some.injEq] at found
          rw [combined_concat_of_eq (mem_of_getElem? atPlace) same]
          simp [found]
        · rw [combined_concat_of_ne same]
          have elsewhere : unique ≠ place := by
            rintro rfl
            rcases combines.keyOf _ _ found with ⟨first, atFirst, isKey⟩
            rw [atPlace, Option.some.injEq] at atFirst
            rw [← atFirst] at isKey
            exact same isKey.symm
          simp [elsewhere]
      · rw [if_neg isUnique, if_neg isUnique]
        have elsewhere : unique ≠ place := by
          rintro rfl
          rcases combines.keyOf _ _ found with ⟨first, atFirst, isKey⟩
          rw [atPlace, Option.some.injEq] at atFirst
          rw [atFirst, isKey] at isUnique
          exact isUnique found
        simp [elsewhere]
    · rw [getElem?_append_right atEnd, getElem?_singleton] at atPlace
      split_ifs at atPlace with isLast
      cases atPlace
      have here : place = traceNodes.length := by omega
      have elsewhere : ¬ tree.keyMap node.key = some place := by
        rw [found, Option.some.injEq]
        omega
      rw [if_neg elsewhere, getElem?_append_right, length_modify,
        combines.length, here, Nat.sub_self]
      · rfl
      · rw [length_modify, combines.length]
        exact atEnd
  · intro key place isPlace
    rcases combines.keyOf key place isPlace with ⟨other, atPlace, isKey⟩
    refine ⟨other, ?_, isKey⟩
    rw [getElem?_append_left (combines.lt_length isPlace)]
    exact atPlace
  · intro other member
    rcases mem_append.1 member with before | isLast
    · exact combines.known other before
    · rw [mem_singleton.1 isLast, found]
      exact Option.some_ne_none unique
  · exact combines.places
  · exact combines.distinct

/-- A node of a new key gets an entry of its own. -/
theorem Combines.addNode_new (fresh : node.combineId = ∅) (missing : tree.keyMap node.key = none) :
    Combines (traceNodes ++ [node]) (tree.addNode node) := by
  have sameKey : node.setHasParent.key = node.key := rfl
  have added : tree.addNode node =
    { traceNodes :=
        tree.traceNodes ++
          [{ node.setHasParent with
            combineId := insert node.id node.combineId }]
      bottomUpList := tree.bottomUpList ++ [tree.traceNodes.length]
      keyMap :=
        Function.update tree.keyMap node.key tree.traceNodes.length } := by
    rw [BottomUpTree.addNode, sameKey, missing]
    rfl
  have absent : ∀ other ∈ traceNodes, other.key ≠ node.key := by
    intro other member same
    apply combines.known other member
    rw [same, missing]
  rw [added]
  constructor
  · rw [length_append, combines.length, length_append]
    rfl
  · intro place other atPlace
    dsimp only
    rcases lt_or_ge place traceNodes.length with before | atEnd
    · rw [getElem?_append_left before] at atPlace
      have different := absent other (mem_of_getElem? atPlace)
      simp only [update_of_ne different]
      rw [getElem?_append_left (by rwa [combines.length]), combines.nodes place other atPlace,
        combined_concat_of_ne different.symm]
    · rw [getElem?_append_right atEnd, getElem?_singleton] at atPlace
      split_ifs at atPlace with isLast
      cases atPlace
      have here : place = traceNodes.length := by omega
      have isPlace : Function.update tree.keyMap node.key
        (some tree.traceNodes.length) node.key = some place := by
        rw [update_self, combines.length, here]
      rw [if_pos isPlace, combined_concat_self fresh absent,
        getElem?_append_right (by rwa [combines.length]),
        combines.length, here, Nat.sub_self]
      rfl
  · intro key place isPlace
    dsimp only at isPlace
    by_cases same : key = node.key
    · rw [same, update_self, Option.some.injEq] at isPlace
      refine ⟨node, ?_, same.symm⟩
      rw [← isPlace, combines.length, getElem?_concat_length]
    · rw [update_of_ne same] at isPlace
      rcases combines.keyOf key place isPlace with ⟨other, atPlace, isKey⟩
      refine ⟨other, ?_, isKey⟩
      rw [getElem?_append_left (combines.lt_length isPlace)]
      exact atPlace
  · intro other member
    dsimp only
    rcases mem_append.1 member with before | isLast
    · rw [update_of_ne (absent other before)]
      exact combines.known other before
    · rw [mem_singleton.1 isLast, update_self]
      exact Option.some_ne_none _
  · intro place
    dsimp only
    rw [mem_append, mem_singleton, combines.places]
    constructor
    · rintro (⟨key, isPlace⟩ | rfl)
      · refine ⟨key, ?_⟩
        rw [update_of_ne]
        · exact isPlace
        · rintro rfl
          rw [missing] at isPlace
          cases isPlace
      · exact ⟨node.key, update_self _ _ _⟩
    · rintro ⟨key, isPlace⟩
      by_cases same : key = node.key
      · rw [same, update_self, Option.some.injEq] at isPlace
        exact Or.inr isPlace.symm
      · rw [update_of_ne same] at isPlace
        exact Or.inl ⟨key, isPlace⟩
  · apply combines.distinct.append (nodup_singleton _)
    rw [disjoint_singleton]
    intro inList
    rcases (combines.places _).1 inList with ⟨key, isPlace⟩
    have inRange := combines.lt_length isPlace
    rw [combines.length] at inRange
    exact lt_irrefl _ inRange

end

theorem combineNodes_combines (traceNodes : List AllocationFunction)
    (fresh : ∀ node ∈ traceNodes, node.combineId = ∅) :
    Combines traceNodes (combineNodes traceNodes) := by
  induction traceNodes using reverseRecOn with
  | nil => exact combines_empty
  | append_singleton traceNodes node induction =>
    have before := induction fun other member => fresh other (mem_append_left _ member)
    have isFresh := fresh node (by simp)
    rw [combineNodes, foldl_append]
    change Combines _ ((combineNodes traceNodes).addNode node)
    cases found : (combineNodes traceNodes).keyMap node.key with
    | none => exact before.addNode_new isFresh found
    | some unique => exact before.addNode_known found

section FunctionList

variable {tree : BottomUpTree} (combines : Combines traceNodes tree)

include combines

theorem Combines.mem_uniqueNodes {entry : AllocationFunction} :
    entry ∈ uniqueNodes tree ↔ ∃ (place : Nat) (node : AllocationFunction),
      traceNodes[place]? = some node ∧ tree.keyMap node.key = some place ∧
        entry = combined traceNodes node := by
  rw [uniqueNodes, mem_filterMap]
  constructor
  · rintro ⟨place, inList, atPlace⟩
    rcases (combines.places place).1 inList with ⟨key, isPlace⟩
    rcases combines.keyOf key place isPlace with ⟨node, isNode, rfl⟩
    rw [combines.nodes place node isNode, if_pos isPlace, Option.some.injEq] at atPlace
    exact ⟨place, node, isNode, isPlace, atPlace.symm⟩
  · rintro ⟨place, node, isNode, isPlace, rfl⟩
    refine ⟨place, (combines.places place).2 ⟨node.key, isPlace⟩, ?_⟩
    rw [combines.nodes place node isNode, if_pos isPlace]

theorem Combines.nodup_keys : ((uniqueNodes tree).map AllocationFunction.key).Nodup := by
  rw [List.Nodup, pairwise_map, uniqueNodes, pairwise_filterMap]
  refine combines.distinct.imp_of_mem ?_
  intro place other inList otherInList different first atPlace second atOther same
  rcases (combines.places place).1 inList with ⟨key, isPlace⟩
  rcases (combines.places other).1 otherInList with ⟨otherKey, isOther⟩
  rcases combines.keyOf key place isPlace with ⟨node, isNode, rfl⟩
  rcases combines.keyOf otherKey other isOther with ⟨otherNode, isNode', rfl⟩
  rw [combines.nodes place node isNode, if_pos isPlace, Option.some.injEq] at atPlace
  rw [combines.nodes other otherNode isNode', if_pos isOther, Option.some.injEq] at atOther
  have sameKey : node.key = otherNode.key := by
    rw [← atPlace, ← atOther] at same
    exact same
  rw [sameKey, isOther, Option.some.injEq] at isPlace
  exact different isPlace.symm

theorem Combines.exists_entry {node : AllocationFunction} (member : node ∈ traceNodes) :
    ∃ first ∈ traceNodes, first.key = node.key ∧ combined traceNodes first ∈ uniqueNodes tree := by
  rcases Option.ne_none_iff_exists'.1 (combines.known node member) with
    ⟨place, found⟩
  rcases combines.keyOf node.key place found with ⟨first, atPlace, isKey⟩
  refine ⟨first, mem_of_getElem? atPlace, isKey, ?_⟩
  rw [combines.mem_uniqueNodes]
  exact ⟨place, first, atPlace, by rw [isKey, found], rfl⟩

end FunctionList

theorem sortBySize_perm (nodes : List AllocationFunction) : (sortBySize nodes).Perm nodes :=
  mergeSort_perm _ _

theorem sortBySize_pairwise (nodes : List AllocationFunction) :
    (sortBySize nodes).Pairwise fun first second =>
      second.size ≤ first.size := by
  have sorted : (sortBySize nodes).Pairwise fun first second =>
    decide (second.size - first.size ≤ 0) = true :=
    pairwise_mergeSort (by
      intro first second third below above
      simp only [decide_eq_true_eq] at below above ⊢
      omega)
      (by
        intro first second
        simp only [Bool.or_eq_true, decide_eq_true_eq]
        omega)
      nodes
  refine sorted.imp ?_
  intro first second notLarger
  rw [decide_eq_true_eq] at notLarger
  omega

namespace TraceRow

def pair (row : TraceRow) : String × Int := (row.name, row.functionInfoIndex)

def key (row : TraceRow) : String := row.name ++ toString row.functionInfoIndex

end TraceRow

def ofPair (rows : List TraceRow) (pair : String × Int) : List TraceRow :=
  rows.filter fun row => decide (row.pair = pair)

/--
There is one entry for each function, with the sums over the rows of the
function and their ids, and the largest entries come first.
-/
structure GroupsRight (rows : List TraceRow)
    (functions : List AllocationFunction) : Prop where
  onePerPair : (functions.map AllocationFunction.pair).Nodup
  pairs : ∀ pair, pair ∈ functions.map AllocationFunction.pair ↔ pair ∈ rows.map TraceRow.pair
  size : ∀ entry ∈ functions, entry.size = ((ofPair rows entry.pair).map TraceRow.size).sum
  count : ∀ entry ∈ functions, entry.count = ((ofPair rows entry.pair).map TraceRow.count).sum
  liveSize : ∀ entry ∈ functions,
    entry.liveSize = ((ofPair rows entry.pair).map TraceRow.liveSize).sum
  liveCount : ∀ entry ∈ functions,
    entry.liveCount = ((ofPair rows entry.pair).map TraceRow.liveCount).sum
  combineId : ∀ entry ∈ functions,
    entry.combineId = ((ofPair rows entry.pair).map TraceRow.id).toFinset
  ordered : functions.Pairwise fun first second => second.size ≤ first.size

def KeysApart (rows : List TraceRow) : Prop :=
  ∀ first ∈ rows, ∀ second ∈ rows, first.key = second.key → first.pair = second.pair

theorem fresh_loadTraceTree (fileId : Int) (rows : List TraceRow) :
    ∀ node ∈ loadTraceTree fileId rows, node.combineId = ∅ := by
  intro node member
  rcases mem_map.1 member with ⟨row, -, rfl⟩
  rfl

theorem withKey_loadTraceTree {rows : List TraceRow} (apart : KeysApart rows) (fileId : Int)
    {row : TraceRow} (member : row ∈ rows) : withKey (loadTraceTree fileId rows) row.key =
      (ofPair rows row.pair).map (traceNodeOf fileId) := by
  rw [withKey, loadTraceTree, filter_map, ofPair]
  congr 1
  apply filter_congr
  intro other inRows
  apply decide_eq_decide.2
  constructor
  · intro same
    exact apart other inRows row member same
  · intro same
    change other.name ++ toString other.functionInfoIndex = _
    rw [TraceRow.pair, TraceRow.pair, Prod.mk.injEq] at same
    rw [same.1, same.2]
    rfl

/--
The functions are put together right exactly when no two of them have one key.
-/
theorem groupsRight_iff (fileId : Int) (rows : List TraceRow) :
    GroupsRight rows (getFunctionList (loadTraceTree fileId rows)) ↔ KeysApart rows := by
  have combines := combineNodes_combines (loadTraceTree fileId rows)
    (fresh_loadTraceTree fileId rows)
  have perm := sortBySize_perm (uniqueNodes (combineNodes (loadTraceTree fileId rows)))
  have keys := ((perm.map AllocationFunction.key).nodup_iff).2 combines.nodup_keys
  have entryOf : ∀ row ∈ rows, ∃ first ∈ rows, first.key = row.key ∧
    combined (loadTraceTree fileId rows) (traceNodeOf fileId first) ∈
      getFunctionList (loadTraceTree fileId rows) := by
    intro row member
    rcases combines.exists_entry (mem_map_of_mem member) with
      ⟨_, isNode, isKey, inList⟩
    rcases mem_map.1 isNode with ⟨first, inRows, rfl⟩
    exact ⟨first, inRows, isKey, perm.mem_iff.2 inList⟩
  have rowOf : ∀ entry ∈ getFunctionList (loadTraceTree fileId rows), ∃ row ∈ rows, entry =
    combined (loadTraceTree fileId rows) (traceNodeOf fileId row) := by
    intro entry member
    rcases combines.mem_uniqueNodes.1 (perm.mem_iff.1 member) with
      ⟨place, node, isNode, -, rfl⟩
    rcases mem_map.1 (mem_of_getElem? isNode) with ⟨row, inRows, rfl⟩
    exact ⟨row, inRows, rfl⟩
  constructor
  · intro right first inRows second inRows' same
    -- The entries of the two functions have one key, so they are one entry.
    rcases mem_map.1 ((right.pairs first.pair).2 (mem_map_of_mem inRows)) with
      ⟨entry, inList, isPair⟩
    rcases mem_map.1 ((right.pairs second.pair).2 (mem_map_of_mem inRows')) with
      ⟨other, inList', isPair'⟩
    have keyOf : ∀ (entry : AllocationFunction) (row : TraceRow),
      entry.pair = row.pair → entry.key = row.key := by
      intro entry row samePair
      rw [AllocationFunction.pair, TraceRow.pair, Prod.mk.injEq] at samePair
      rw [AllocationFunction.key, TraceRow.key, samePair.1, samePair.2]
    have sameEntry : entry = other := by
      apply inj_on_of_nodup_map keys inList inList'
      rw [keyOf entry first isPair, keyOf other second isPair', same]
    rw [← isPair, ← isPair', sameEntry]
  · intro apart
    have groupOf : ∀ row ∈ rows, withKey (loadTraceTree fileId rows) (traceNodeOf fileId row).key =
      (ofPair rows row.pair).map (traceNodeOf fileId) :=
      fun row member => withKey_loadTraceTree apart fileId member
    have sumOf : ∀ (field : AllocationFunction → Int) (ofRow : TraceRow → Int),
      (∀ row, field (traceNodeOf fileId row) = ofRow row) → ∀ row ∈ rows,
        ((withKey (loadTraceTree fileId rows) (traceNodeOf fileId row).key).map field).sum =
          ((ofPair rows row.pair).map ofRow).sum := by
      intro field ofRow same row member
      rw [groupOf row member, map_map]
      congr 1
      exact map_congr_left fun other _ => same other
    constructor
    · apply List.Nodup.of_map fun pair => pair.1 ++ toString pair.2
      rw [map_map]
      exact keys
    · intro pair
      constructor
      · intro isPair
        rcases mem_map.1 isPair with ⟨entry, inList, rfl⟩
        rcases rowOf entry inList with ⟨row, inRows, rfl⟩
        exact mem_map.2 ⟨row, inRows, rfl⟩
      · intro isPair
        rcases mem_map.1 isPair with ⟨row, inRows, rfl⟩
        rcases entryOf row inRows with ⟨first, inRows', isKey, inList⟩
        rw [← apart first inRows' row inRows isKey]
        exact mem_map.2 ⟨_, inList, rfl⟩
    · intro entry inList
      rcases rowOf entry inList with ⟨row, inRows, rfl⟩
      exact sumOf _ _ (fun _ => rfl) row inRows
    · intro entry inList
      rcases rowOf entry inList with ⟨row, inRows, rfl⟩
      exact sumOf _ _ (fun _ => rfl) row inRows
    · intro entry inList
      rcases rowOf entry inList with ⟨row, inRows, rfl⟩
      exact sumOf _ _ (fun _ => rfl) row inRows
    · intro entry inList
      rcases rowOf entry inList with ⟨row, inRows, rfl⟩
      exact sumOf _ _ (fun _ => rfl) row inRows
    · intro entry inList
      rcases rowOf entry inList with ⟨row, inRows, rfl⟩
      change ((withKey (loadTraceTree fileId rows) (traceNodeOf fileId row).key).map _).toFinset = _
      rw [groupOf row inRows, map_map]
      rfl
    · exact sortBySize_pairwise _

/-- The function `f` with the number 12 and the function `f1` with 2. -/
theorem not_groupsRight_sameKey : ¬ GroupsRight [⟨1, "f1", "", 0, 0, 0, 0, 0, 0, 0, 0, 2⟩,
    ⟨2, "f", "", 0, 0, 0, 0, 0, 0, 0, 1, 12⟩]
    (getFunctionList (loadTraceTree 0 [⟨1, "f1", "", 0, 0, 0, 0, 0, 0, 0, 0, 2⟩,
      ⟨2, "f", "", 0, 0, 0, 0, 0, 0, 0, 1, 12⟩])) := by
  intro right
  have second := (right.pairs ("f", 12)).2 (by decide)
  have listed : ((getFunctionList (loadTraceTree 0 [⟨1, "f1", "", 0, 0, 0, 0, 0, 0, 0, 0, 2⟩,
    ⟨2, "f", "", 0, 0, 0, 0, 0, 0, 0, 1, 12⟩])).map
    AllocationFunction.pair) = [("f1", 2)] := by
    decide +kernel
  rw [listed] at second
  revert second
  decide

end SysAnalyzer.JsHeap
