import SysAnalyzer.JsHeap.DominatedNodes

/-!
# The nodes that retain a node

`buildNodeEdge` hands the edges out to the nodes that they go out from, and
`buildRetainers` packs the incoming edges of the nodes into two arrays with one
slice for each node, in the way in which `buildDominatedNode` packs the nodes.

The arrays have as many slots as there are edges.
-/

namespace SysAnalyzer.JsHeap

open Foundation List

/-- What the arrays of retainers are built from of a `HeapEdge`. -/
structure RetainEdge where
  edgeIndex : Nat
  fromNodeId : Nat
  toNodeId : Nat

/-- What they are built from of a `HeapNode`. -/
structure RetainNode where
  nodeIndex : Nat
  id : Nat
  edgeCount : Nat
  firstEdgeIndex : Nat

/-- `nodeMap.get(id)`. -/
def nodeOf (nodes : List RetainNode) (id : Nat) : Option RetainNode :=
  nodes.find? fun node => node.id == id

/-- The edges that `buildNodeEdge` adds to a node. -/
def nodeEdges (edges : List RetainEdge) (node : RetainNode) : List RetainEdge :=
  (range node.edgeCount).filterMap fun i => edges[node.firstEdgeIndex + i]?

/-- `firstRetainerIndex`, `retainingNodes` and `retainingEdges`. -/
structure Retainers where
  firstRetainerIndex : List Nat
  retainingNodes : List Nat
  retainingEdges : List Nat

def countRetainer (nodes : List RetainNode) (counts : List Nat) (edge : RetainEdge) : List Nat :=
  match nodeOf nodes edge.toNodeId with
  | none => counts
  | some toNode => counts.set toNode.nodeIndex (counts.getD toNode.nodeIndex 0 + 1)

def Retainers.put (retainers : Retainers) (childIndex nodeIndex edgeIndex : Nat) : Retainers :=
  let first := retainers.firstRetainerIndex.getD childIndex 0
  let free := retainers.retainingNodes.getD first 0 - 1
  { retainers with
    retainingNodes := (retainers.retainingNodes.set first free).set (first + free) nodeIndex
    retainingEdges := retainers.retainingEdges.set (first + free) edgeIndex }

/-- An edge of the last loop, which goes out from `node`. -/
def fillRetainer (nodes : List RetainNode) (retainers : Retainers)
    (node : RetainNode) (edge : RetainEdge) : Retainers :=
  match nodeOf nodes edge.toNodeId with
  | none => retainers
  | some childNode => retainers.put childNode.nodeIndex node.nodeIndex edge.edgeIndex

/-- `buildRetainers`, after `buildNodeEdge`; the second loop is that of
`buildDominatedNode`. -/
def buildRetainers (nodes : List RetainNode) (edges : List RetainEdge) : Retainers :=
  let counts := edges.foldl (countRetainer nodes) (replicate (nodes.length + 1) 0)
  let placed :=
    nodes.foldl (fun placed node => placeSlice placed node.nodeIndex)
      (⟨counts, replicate edges.length 0⟩, 0)
  nodes.foldl (fun retainers node =>
    (nodeEdges edges node).foldl (fillRetainer nodes · node) retainers)
    { firstRetainerIndex :=
        placed.1.firstDominatedNodesIdx.set nodes.length
          placed.1.dominatedNodes.length
      retainingNodes := placed.1.dominatedNodes
      retainingEdges := replicate edges.length 0 }

/-- The retaining nodes and edges in the slots of a node. -/
def Retainers.slice (retainers : Retainers) (nodeIndex : Nat) : List (Nat × Nat) :=
  let start := retainers.firstRetainerIndex.getD nodeIndex 0
  let stop := retainers.firstRetainerIndex.getD (nodeIndex + 1) 0
  (range' start (stop - start)).map fun slot =>
    (retainers.retainingNodes.getD slot 0, retainers.retainingEdges.getD slot 0)

/-- The nodes of a snapshot by their indexes, with edges to its nodes, which are
grouped by the nodes that they go out from. -/
structure EdgeSnapshot where
  nodes : List RetainNode
  edges : List RetainEdge
  indexes : nodes.map RetainNode.nodeIndex = range nodes.length
  distinct : (nodes.map RetainNode.id).Nodup
  grouped : edges = nodes.flatMap fun node => edges.filter fun edge => edge.fromNodeId == node.id
  counted : ∀ node ∈ nodes, node.edgeCount =
    (edges.filter fun edge => edge.fromNodeId == node.id).length
  first : ∀ front node rest, nodes = front ++ node :: rest →
    node.firstEdgeIndex = (front.map RetainNode.edgeCount).sum
  targets : ∀ edge ∈ edges, edge.toNodeId ∈ nodes.map RetainNode.id

namespace EdgeSnapshot

variable (snapshot : EdgeSnapshot)

def indexOf (id : Nat) : Nat := ((nodeOf snapshot.nodes id).map RetainNode.nodeIndex).getD 0

def incoming (nodeIndex : Nat) : List (Nat × Nat) :=
  (snapshot.edges.filter fun edge =>
    snapshot.indexOf edge.toNodeId == nodeIndex).map fun edge =>
    (snapshot.indexOf edge.fromNodeId, edge.edgeIndex)

/-- The edges: the node that each goes to, the node that it goes out from, and
its index. -/
def entries : List (Nat × Nat × Nat) :=
  snapshot.edges.map fun edge =>
    (snapshot.indexOf edge.toNodeId, snapshot.indexOf edge.fromNodeId, edge.edgeIndex)

theorem filterMap_range (edges : List RetainEdge) (start count : Nat) :
    ((range count).filterMap fun i => edges[start + i]?) = (edges.drop start).take count := by
  induction count with
  | zero => rfl
  | succ count induction =>
    rw [range_succ, filterMap_append, induction, take_add_one, getElem?_drop]
    cases found : edges[start + count]? <;> simp [found]

variable {snapshot}

theorem nodeOf_id {node : RetainNode} (member : node ∈ snapshot.nodes) :
    nodeOf snapshot.nodes node.id = some node := by
  cases found : nodeOf snapshot.nodes node.id with
  | none =>
    have different := find?_eq_none.1 found node member
    simp at different
  | some other =>
    have sameId := find?_some found
    rw [beq_iff_eq] at sameId
    rw [inj_on_of_nodup_map snapshot.distinct (mem_of_find?_eq_some found) member sameId]

theorem indexOf_id {node : RetainNode} (member : node ∈ snapshot.nodes) :
    snapshot.indexOf node.id = node.nodeIndex := by
  rw [indexOf, nodeOf_id member]
  rfl

theorem nodeIndex_lt {node : RetainNode} (member : node ∈ snapshot.nodes) :
    node.nodeIndex < snapshot.nodes.length := by
  have index := mem_map_of_mem (f := RetainNode.nodeIndex) member
  rwa [snapshot.indexes, mem_range] at index

theorem nodeEdges_eq {node : RetainNode} (member : node ∈ snapshot.nodes) :
    nodeEdges snapshot.edges node =
      snapshot.edges.filter fun edge => edge.fromNodeId == node.id := by
  rcases append_of_mem member with ⟨front, rest, isNodes⟩
  have parts := snapshot.grouped
  have first := snapshot.first front node rest isNodes
  have counts := snapshot.counted
  rw [nodeEdges, filterMap_range, counts node member, first]
  generalize snapshot.edges = edges at parts counts ⊢
  generalize isOwn : (fun node : RetainNode =>
    edges.filter fun edge => edge.fromNodeId == node.id) = own at parts
  have ownNode (node : RetainNode) :
    (edges.filter fun edge => edge.fromNodeId == node.id) = own node :=
    congrFun isOwn node
  simp only [ownNode] at counts ⊢
  rw [isNodes] at parts counts
  have lengths : (front.map RetainNode.edgeCount).sum = (front.flatMap own).length := by
    rw [length_flatMap]
    refine congrArg sum (map_congr_left fun other ofFront => ?_)
    exact counts other (mem_append_left _ ofFront)
  rw [parts, lengths, flatMap_append, drop_left, flatMap_cons, take_left]

theorem nodeOf_target {edge : RetainEdge} (member : edge ∈ snapshot.edges) :
    ∃ toNode, nodeOf snapshot.nodes edge.toNodeId = some toNode ∧
      toNode.nodeIndex = snapshot.indexOf edge.toNodeId ∧
        toNode.nodeIndex < snapshot.nodes.length := by
  rcases mem_map.1 (snapshot.targets edge member) with
    ⟨toNode, isNode, sameId⟩
  rw [← sameId, nodeOf_id isNode, indexOf_id isNode]
  exact ⟨toNode, rfl, rfl, nodeIndex_lt isNode⟩

theorem foldl_countRetainer (counts : List Nat) :
    snapshot.edges.foldl (countRetainer snapshot.nodes) counts = snapshot.entries.foldl
      (fun counts entry => counts.set entry.1 (counts.getD entry.1 0 + 1))
      counts := by
  rw [entries, foldl_map]
  refine foldl_ext _ _ _ fun counts edge member => ?_
  rcases nodeOf_target member with ⟨toNode, found, index, -⟩
  rw [countRetainer, found, ← index]

theorem foldl_fillRetainer (retainers : Retainers) : snapshot.nodes.foldl (fun retainers node =>
    (nodeEdges snapshot.edges node).foldl
      (fillRetainer snapshot.nodes · node) retainers) retainers =
    snapshot.entries.foldl (fun retainers entry => retainers.put entry.1 entry.2.1 entry.2.2)
      retainers := by
  rw [entries, foldl_map]
  conv_rhs => rw [snapshot.grouped]
  rw [foldl_flatMap]
  refine foldl_ext _ _ _ fun retainers node isNode => ?_
  rw [nodeEdges_eq isNode]
  refine foldl_ext _ _ _ fun retainers edge ofNode => ?_
  rcases mem_filter.1 ofNode with ⟨member, source⟩
  rcases nodeOf_target member with ⟨childNode, found, index, -⟩
  rw [beq_iff_eq] at source
  rw [fillRetainer, found, ← index, source, indexOf_id isNode]

/-! ## The slices -/

def entry (snapshot : EdgeSnapshot) (place : Nat) : Nat × Nat × Nat :=
  snapshot.entries.getD place (0, 0, 0)

def places (snapshot : EdgeSnapshot) : List Nat := range snapshot.edges.length

/-- The nodes that the edges go to, by the places of the edges. -/
def targetOf (snapshot : EdgeSnapshot) : List Nat := snapshot.entries.map Prod.fst

theorem map_entry : snapshot.places.map snapshot.entry = snapshot.entries := by
  apply ext_getElem
  · simp [places, entries]
  · intro place inPlaces inEntries
    simp [places, entry, inEntries]

theorem getD_targetOf (place : Nat) : snapshot.targetOf.getD place 0 = (snapshot.entry place).1 :=
  getD_map snapshot.entries (0, 0, 0) Prod.fst

theorem targetOf_inRange :
    ∀ place ∈ snapshot.places, snapshot.targetOf.getD place 0 < snapshot.nodes.length := by
  intro place inPlaces
  have member := mem_map_of_mem (f := snapshot.entry) inPlaces
  rw [map_entry, entries] at member
  rcases mem_map.1 member with ⟨edge, isEdge, same⟩
  rcases nodeOf_target isEdge with ⟨toNode, -, index, inside⟩
  rw [getD_targetOf, ← same, ← index]
  exact inside

/-- The arrays after the second loop. -/
def placed (snapshot : EdgeSnapshot) : DominatedNodes × Nat :=
  (range snapshot.nodes.length).foldl placeSlice
    (⟨snapshot.places.foldl (countNode snapshot.targetOf)
      (replicate (snapshot.nodes.length + 1) 0),
      replicate snapshot.edges.length 0⟩, 0)

theorem placing_placed : Placing snapshot.targetOf snapshot.places snapshot.nodes.length
    snapshot.nodes.length snapshot.placed := by
  refine placing_foldl ⟨rfl, ?_, ?_, nofun, ?_, nofun⟩ targetOf_inRange (le_refl _)
  · rw [length_countNodes, length_replicate]
  · rw [length_replicate, places, length_range]
  · intro idx inside _
    rw [getD_countNodes _ _ (Nat.lt_succ_of_lt inside) length_replicate]
    simp [getD_eq_getElem?_getD]

/-- `firstRetainerIndex` when all slices are placed. -/
def firsts (snapshot : EdgeSnapshot) : List Nat :=
  snapshot.placed.1.firstDominatedNodesIdx.set snapshot.nodes.length
    snapshot.placed.1.dominatedNodes.length

theorem getD_firsts {idx : Nat} (inside : idx ≤ snapshot.nodes.length) :
    snapshot.firsts.getD idx 0 = startOf snapshot.targetOf snapshot.places idx := by
  have placing := snapshot.placing_placed
  rw [firsts, getD_set]
  rcases eq_or_lt_of_le inside with last | before
  · rw [if_pos ⟨last.symm, by rw [placing.firstLength]; omega⟩, placing.length,
      last, startOf_eq_length _ _ targetOf_inRange]
  · rw [if_neg (by omega)]
    exact placing.starts idx before

theorem buildRetainers_eq : buildRetainers snapshot.nodes snapshot.edges = snapshot.places.foldl
    (fun retainers place => retainers.put (snapshot.entry place).1
      (snapshot.entry place).2.1 (snapshot.entry place).2.2)
    ⟨snapshot.firsts, snapshot.placed.1.dominatedNodes,
      replicate snapshot.edges.length 0⟩ := by
  have counted (counts : List Nat) : snapshot.edges.foldl (countRetainer snapshot.nodes) counts =
    snapshot.places.foldl (countNode snapshot.targetOf) counts := by
    rw [foldl_countRetainer, ← map_entry, foldl_map]
    refine foldl_ext _ _ _ fun counts place _ => ?_
    rw [countNode, getD_targetOf]
  have slices (start : DominatedNodes × Nat) : snapshot.nodes.foldl
    (fun placed node => placeSlice placed node.nodeIndex) start =
      (range snapshot.nodes.length).foldl placeSlice start := by
    rw [← snapshot.indexes, foldl_map]
  rw [buildRetainers, foldl_fillRetainer, ← map_entry, foldl_map, counted, slices]
  rfl

/-- The retainers after some edges. -/
structure Retaining (snapshot : EdgeSnapshot) (done : List Nat)
    (retainers : Retainers) : Prop where
  first : retainers.firstRetainerIndex = snapshot.firsts
  nodes : Filling (fun place => (snapshot.entry place).2.1) snapshot.targetOf
    snapshot.places done snapshot.nodes.length retainers.retainingNodes
  edges : Written (fun place => (snapshot.entry place).2.2) snapshot.targetOf
    snapshot.places done snapshot.nodes.length retainers.retainingEdges

theorem Retaining.next {done rest : List Nat} {place : Nat}
    {retainers : Retainers} (retaining : Retaining snapshot done retainers)
    (isNext : snapshot.places = done ++ place :: rest) :
    Retaining snapshot (done ++ [place]) (retainers.put
      (snapshot.entry place).1 (snapshot.entry place).2.1 (snapshot.entry place).2.2) := by
  have isTarget := snapshot.getD_targetOf place
  have member : place ∈ snapshot.places := by
    rw [isNext]
    simp
  have inside := targetOf_inRange place member
  rw [isTarget] at inside
  have isSlot := getD_firsts (le_of_lt inside)
  rw [← retaining.first] at isSlot
  have more := lt_length_dominatedBy isNext isTarget
  have free := retaining.nodes.free _ inside more
  have bound := startOf_add_le snapshot.targetOf snapshot.places inside
  rw [startOf_eq_length _ _ targetOf_inRange, ← retaining.edges.length] at bound
  refine ⟨retaining.first, retaining.nodes.next isNext isTarget targetOf_inRange
    inside isSlot rfl, retaining.edges.next isNext isTarget ?_ ?_ ?_⟩
  · exact length_set
  · rw [Retainers.put, getD_set, isSlot, free, if_pos (by omega)]
  · intro slot _ notLast
    rw [Retainers.put, getD_set, isSlot, free, if_neg (by omega)]

theorem retaining_buildRetainers :
    Retaining snapshot snapshot.places (buildRetainers snapshot.nodes snapshot.edges) := by
  have placing := snapshot.placing_placed
  rw [buildRetainers_eq]
  suffices ∀ done, done <+: snapshot.places → Retaining snapshot done
    (done.foldl (fun retainers place => retainers.put (snapshot.entry place).1
      (snapshot.entry place).2.1 (snapshot.entry place).2.2)
      ⟨snapshot.firsts, snapshot.placed.1.dominatedNodes,
        replicate snapshot.edges.length 0⟩) from
    this snapshot.places prefix_rfl
  intro done
  induction done using reverseRecOn with
  | nil =>
    refine fun _ => ⟨rfl, ⟨⟨placing.length, nofun⟩, ?_⟩, ⟨?_, nofun⟩⟩
    · intro idx inside some
      exact placing.free idx inside some
    · rw [foldl_nil, length_replicate, places, length_range]
  | append_singleton done place ih =>
    rintro ⟨rest, isNext⟩
    rw [append_assoc, singleton_append] at isNext
    rw [foldl_append]
    exact (ih ⟨place :: rest, isNext⟩).next isNext.symm

theorem incoming_eq (nodeIndex : Nat) : snapshot.incoming nodeIndex =
    (dominatedBy snapshot.targetOf snapshot.places nodeIndex).map fun place =>
      (snapshot.entry place).2 := by
  have listed : snapshot.incoming nodeIndex =
    (snapshot.entries.filter (·.1 == nodeIndex)).map Prod.snd := by
    rw [entries, filter_map, map_map]
    rfl
  rw [listed, ← map_entry, filter_map, map_map, dominatedBy]
  simp only [getD_targetOf]
  rfl

theorem slice_buildRetainers {nodeIndex : Nat} (inside : nodeIndex < snapshot.nodes.length) :
    (buildRetainers snapshot.nodes snapshot.edges).slice nodeIndex =
      (snapshot.incoming nodeIndex).reverse := by
  have retaining := snapshot.retaining_buildRetainers
  have nodes := retaining.nodes.slice inside
  have edges := retaining.edges.slice inside
  rw [Retainers.slice, retaining.first, getD_firsts (le_of_lt inside),
    getD_firsts (Nat.succ_le_of_lt inside), ← zip_map', nodes, edges,
    incoming_eq, ← map_reverse, ← map_reverse, zip_map', map_reverse]

end EdgeSnapshot

/-- A `dominatorTree`: a node for each node. -/
structure DominatorArray where
  dominators : List Nat
  inRange : ∀ idx < dominators.length, dominators.getD idx 0 < dominators.length

theorem slice_buildDominatedNode (array : DominatorArray) :
    ∃ built, buildDominatedNode 0 array.dominators = .ok built ∧
      ∀ nodeIdx < array.dominators.length, (built.slice nodeIdx).Nodup ∧
        ∀ idx, idx ∈ built.slice nodeIdx ↔ (1 ≤ idx ∧ idx < array.dominators.length) ∧
          array.dominators.getD idx 0 = nodeIdx := by
  refine ⟨fillSlices (range' 1 (array.dominators.length - 1))
    array.dominators, by rw [buildDominatedNode, if_pos rfl], ?_⟩
  intro nodeIdx inside
  have inRange : ∀ idx ∈ range' 1 (array.dominators.length - 1),
    array.dominators.getD idx 0 < array.dominators.length := by
    intro idx member
    rw [mem_range'_1] at member
    exact array.inRange idx (by omega)
  rw [slice_fillSlices length_range' inRange inside]
  refine ⟨(nodup_reverse.2 (Nodup.filter _ nodup_range')), fun idx => ?_⟩
  rw [mem_reverse, dominatedBy, mem_filter, mem_range'_1, beq_iff_eq]
  apply and_congr_left'
  omega

/--
The slots of a node hold its incoming edges, each once, with the nodes that they
go out from; and the nodes besides the root that it dominates, each once.
-/
theorem heapArrays_exact : (∀ snapshot : EdgeSnapshot, ∀ nodeIndex < snapshot.nodes.length,
    (buildRetainers snapshot.nodes snapshot.edges).slice nodeIndex =
      (snapshot.incoming nodeIndex).reverse) ∧
    ∀ array : DominatorArray, ∃ built, buildDominatedNode 0 array.dominators = .ok built ∧
      ∀ nodeIdx < array.dominators.length, (built.slice nodeIdx).Nodup ∧
        ∀ idx, idx ∈ built.slice nodeIdx ↔ (1 ≤ idx ∧ idx < array.dominators.length) ∧
          array.dominators.getD idx 0 = nodeIdx :=
  ⟨fun snapshot _ inside => snapshot.slice_buildRetainers inside, slice_buildDominatedNode⟩

/-- Two nodes with an edge each way, and one from the first to itself. -/
def twoNodes : EdgeSnapshot where
  nodes := [⟨0, 7, 2, 0⟩, ⟨1, 9, 1, 2⟩]
  edges := [⟨0, 7, 9⟩, ⟨1, 7, 7⟩, ⟨2, 9, 7⟩]
  indexes := rfl
  distinct := by decide
  grouped := rfl
  counted := by decide
  first := by
    intro front node rest split
    rcases front with - | ⟨other, - | ⟨third, front⟩⟩ <;> simp_all [eq_comm]
  targets := by decide

/-- The root dominates node 1, and node 1 dominates node 2. -/
def threeInLine : DominatorArray where
  dominators := [0, 0, 1]
  inRange := by decide

theorem heapArrays_exact_twoNodes :
    (buildRetainers twoNodes.nodes twoNodes.edges).slice 0 = [(1, 2), (0, 1)] ∧
      ∃ built, buildDominatedNode 0 threeInLine.dominators = .ok built ∧ 2 ∈ built.slice 1 := by
  refine ⟨(heapArrays_exact.1 twoNodes 0 (by decide)).trans (by decide), ?_⟩
  rcases heapArrays_exact.2 threeInLine with ⟨built, done, slices⟩
  exact ⟨built, done, ((slices 1 (by decide)).2 2).2 (by decide)⟩

end SysAnalyzer.JsHeap
