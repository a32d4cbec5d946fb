import SysAnalyzer.Foundation.ParentTree
import Mathlib

/-!
# The nodes that a node dominates

`buildDominatedNode` turns the dominators of the nodes into slices of one array,
one slice for each node.  The nodes are counted by their dominators, the slices
are placed one behind the other, and each is filled from its end, with its first
slot as the number of slots that are still free.

An array of nodes has fewer than `2 ^ 32` entries, so no slot overflows.
-/

namespace SysAnalyzer.JsHeap

open Foundation List

/-- `firstDominatedNodesIdx` and `dominatedNodes`. -/
structure DominatedNodes where
  firstDominatedNodesIdx : List Nat
  dominatedNodes : List Nat

def countNode (dominatorTree counts : List Nat) (nodeIdx : Nat) : List Nat :=
  let dominatorIdx := dominatorTree.getD nodeIdx 0
  counts.set dominatorIdx (counts.getD dominatorIdx 0 + 1)

/-- A slice in the second loop, with the index at which it starts. -/
def placeSlice (placed : DominatedNodes × Nat) (idx : Nat) : DominatedNodes × Nat :=
  let dominateCount := placed.1.firstDominatedNodesIdx.getD idx 0
  ({ firstDominatedNodesIdx := placed.1.firstDominatedNodesIdx.set idx placed.2
     dominatedNodes := placed.1.dominatedNodes.set placed.2 dominateCount },
    placed.2 + dominateCount)

/-- A node of the third loop. -/
def fillSlot (dominatorTree firstDominatedNodesIdx dominatedNodes : List Nat)
    (nodeIdx : Nat) : List Nat :=
  let dominatorIdx := dominatorTree.getD nodeIdx 0
  let dominatorRefIdx := firstDominatedNodesIdx.getD dominatorIdx 0
  let free := dominatedNodes.getD dominatorRefIdx 0 - 1
  (dominatedNodes.set dominatorRefIdx free).set (dominatorRefIdx + free) nodeIdx

/-- The three loops of `buildDominatedNode`, over the nodes besides the root. -/
def fillSlices (nodeIdxs dominatorTree : List Nat) : DominatedNodes :=
  let nodeCount := dominatorTree.length
  let counts :=
    nodeIdxs.foldl (countNode dominatorTree) (replicate (nodeCount + 1) 0)
  let placed :=
    (range nodeCount).foldl placeSlice (⟨counts, replicate (nodeCount - 1) 0⟩, 0)
  let firstDominatedNodesIdx :=
    placed.1.firstDominatedNodesIdx.set nodeCount placed.1.dominatedNodes.length
  { firstDominatedNodesIdx
    dominatedNodes :=
      nodeIdxs.foldl (fillSlot dominatorTree firstDominatedNodesIdx)
        placed.1.dominatedNodes }

/-- `buildDominatedNode`, with the index of the root. -/
def buildDominatedNode (rootIndex : Nat) (dominatorTree : List Nat) :
    Except String DominatedNodes :=
  let nodeCount := dominatorTree.length
  if rootIndex = 0 then
    .ok (fillSlices (range' 1 (nodeCount - 1)) dominatorTree)
  else if rootIndex = nodeCount - 1 then
    .ok (fillSlices (range (nodeCount - 1)) dominatorTree)
  else
    .error "Root node is expected to be either first or last"

/-- The slice of a node in `dominatedNodes`. -/
def DominatedNodes.slice (built : DominatedNodes) (nodeIdx : Nat) : List Nat :=
  let dominatorFromIdx := built.firstDominatedNodesIdx.getD nodeIdx 0
  let dominatorToIdx := built.firstDominatedNodesIdx.getD (nodeIdx + 1) 0
  (range' dominatorFromIdx (dominatorToIdx - dominatorFromIdx)).map fun idx =>
    built.dominatedNodes.getD idx 0

theorem getD_set (slots : List Nat) (index other value : Nat) :
    (slots.set index value).getD other 0 = if index = other ∧ index < slots.length then value
      else slots.getD other 0 := by
  rw [getD_eq_getElem?_getD, getD_eq_getElem?_getD, getElem?_set]
  by_cases same : index = other
  · by_cases inside : index < slots.length
    · simp [same ▸ inside, same]
    · simp [same, same ▸ inside]
  · simp [same]

/-! ## The slices -/

section Slices

variable (dominatorTree nodeIdxs : List Nat)

def dominatedBy (idx : Nat) : List Nat :=
  nodeIdxs.filter fun nodeIdx => dominatorTree.getD nodeIdx 0 == idx

def startOf (idx : Nat) : Nat :=
  ∑ before ∈ Finset.range idx, (dominatedBy dominatorTree nodeIdxs before).length

theorem startOf_succ (idx : Nat) :
    startOf dominatorTree nodeIdxs (idx + 1) = startOf dominatorTree nodeIdxs idx +
        (dominatedBy dominatorTree nodeIdxs idx).length :=
  Finset.sum_range_succ _ idx

theorem startOf_add_le {idx later : Nat} (before : idx < later) :
    startOf dominatorTree nodeIdxs idx + (dominatedBy dominatorTree nodeIdxs idx).length ≤
      startOf dominatorTree nodeIdxs later := by
  induction later with
  | zero => cases before
  | succ later ih =>
    rw [startOf_succ]
    rcases lt_or_ge idx later with earlier | last
    · exact (ih earlier).trans (Nat.le_add_right _ _)
    · have same : idx = later := by omega
      rw [same]

variable {nodeCount : Nat}

theorem startOf_eq_length
    (inRange : ∀ nodeIdx ∈ nodeIdxs, dominatorTree.getD nodeIdx 0 < nodeCount) :
    startOf dominatorTree nodeIdxs nodeCount = nodeIdxs.length := by
  induction nodeIdxs with
  | nil => simp [startOf, dominatedBy]
  | cons nodeIdx rest ih =>
    have ofRest := ih fun other member =>
      inRange other (mem_cons_of_mem nodeIdx member)
    have here := inRange nodeIdx mem_cons_self
    have lengths : ∀ idx, (dominatedBy dominatorTree (nodeIdx :: rest) idx).length =
        (dominatedBy dominatorTree rest idx).length +
          if dominatorTree.getD nodeIdx 0 = idx then 1 else 0 := by
      intro idx
      by_cases same : dominatorTree.getD nodeIdx 0 = idx
      · rw [dominatedBy, filter_cons_of_pos (by simpa using same),
          length_cons, if_pos same, dominatedBy]
      · rw [dominatedBy, filter_cons_of_neg (by simpa using same), if_neg same, dominatedBy]
        rfl
    rw [length_cons, ← ofRest, startOf, startOf]
    simp only [lengths]
    rw [Finset.sum_add_distrib, Finset.sum_ite_eq, if_pos (Finset.mem_range.2 here)]

theorem getD_countNodes {size idx : Nat} (inside : idx < size) :
    ∀ {counts : List Nat}, counts.length = size →
      (nodeIdxs.foldl (countNode dominatorTree) counts).getD idx 0 =
        counts.getD idx 0 + (dominatedBy dominatorTree nodeIdxs idx).length := by
  induction nodeIdxs with
  | nil =>
    intro counts _
    rfl
  | cons nodeIdx rest ih =>
    intro counts sized
    have counted : (countNode dominatorTree counts nodeIdx).length = size := by
      rw [countNode, length_set, sized]
    rw [foldl_cons, ih counted, countNode, getD_set, sized]
    by_cases same : dominatorTree.getD nodeIdx 0 = idx
    · rw [if_pos ⟨same, same ▸ inside⟩, dominatedBy, dominatedBy,
        filter_cons_of_pos (by simpa using same), length_cons, same]
      omega
    · rw [if_neg fun both => same both.1, dominatedBy, dominatedBy,
        filter_cons_of_neg (by simpa using same)]

/-- The second loop after some slices. -/
structure Placing (nodeCount done : Nat) (placed : DominatedNodes × Nat) :
    Prop where
  start : placed.2 = startOf dominatorTree nodeIdxs done
  firstLength : placed.1.firstDominatedNodesIdx.length = nodeCount + 1
  length : placed.1.dominatedNodes.length = nodeIdxs.length
  starts : ∀ idx < done, placed.1.firstDominatedNodesIdx.getD idx 0 =
        startOf dominatorTree nodeIdxs idx
  counts : ∀ idx < nodeCount, done ≤ idx → placed.1.firstDominatedNodesIdx.getD idx 0 =
        (dominatedBy dominatorTree nodeIdxs idx).length
  free : ∀ idx < done, 0 < (dominatedBy dominatorTree nodeIdxs idx).length →
      placed.1.dominatedNodes.getD (startOf dominatorTree nodeIdxs idx) 0 =
        (dominatedBy dominatorTree nodeIdxs idx).length

variable {dominatorTree nodeIdxs}

variable {placed : DominatedNodes × Nat}

theorem Placing.next {done : Nat} (placing : Placing dominatorTree nodeIdxs nodeCount done placed)
    (inRange : ∀ nodeIdx ∈ nodeIdxs, dominatorTree.getD nodeIdx 0 < nodeCount)
    (inside : done < nodeCount) :
    Placing dominatorTree nodeIdxs nodeCount (done + 1) (placeSlice placed done) := by
  have count := placing.counts done inside (le_refl done)
  have bound : startOf dominatorTree nodeIdxs done +
      (dominatedBy dominatorTree nodeIdxs done).length ≤ nodeIdxs.length := by
    rw [← startOf_eq_length dominatorTree nodeIdxs inRange]
    exact startOf_add_le dominatorTree nodeIdxs inside
  constructor
  case start =>
    rw [placeSlice, count, placing.start, startOf_succ]
  case firstLength =>
    rw [placeSlice, length_set, placing.firstLength]
  case length =>
    rw [placeSlice, length_set, placing.length]
  case starts =>
    intro idx before
    rw [placeSlice, getD_set, placing.firstLength, placing.start]
    by_cases same : done = idx
    · rw [if_pos ⟨same, by omega⟩, same]
    · rw [if_neg fun both => same both.1]
      exact placing.starts idx (by omega)
  case counts =>
    intro idx inCount behind
    have apart : done ≠ idx := by omega
    rw [placeSlice, getD_set, if_neg fun both => apart both.1]
    exact placing.counts idx inCount (by omega)
  case free =>
    intro idx before some
    rw [placeSlice, getD_set, count, placing.length, placing.start]
    by_cases same : done = idx
    · subst same
      rw [if_pos ⟨rfl, by omega⟩]
    · have earlier : idx < done := by omega
      have ends := startOf_add_le dominatorTree nodeIdxs earlier
      have apart : startOf dominatorTree nodeIdxs done ≠
          startOf dominatorTree nodeIdxs idx := by omega
      rw [if_neg fun both => apart both.1]
      exact placing.free idx earlier some

theorem placing_foldl (placing : Placing dominatorTree nodeIdxs nodeCount 0 placed)
    (inRange : ∀ nodeIdx ∈ nodeIdxs, dominatorTree.getD nodeIdx 0 < nodeCount)
    {done : Nat} (within : done ≤ nodeCount) :
    Placing dominatorTree nodeIdxs nodeCount done ((range done).foldl placeSlice placed) := by
  induction done with
  | zero => exact placing
  | succ done ih =>
    rw [range_succ, foldl_append]
    exact (ih (by omega)).next inRange (by omega)

/-- Slots after some nodes: the slices are filled from their ends with values of
the nodes. -/
structure Written (value : Nat → Nat) (dominatorTree nodeIdxs done : List Nat)
    (nodeCount : Nat) (slots : List Nat) : Prop where
  length : slots.length = nodeIdxs.length
  filled : ∀ idx < nodeCount, ∀ place < (dominatedBy dominatorTree done idx).length,
      slots.getD (startOf dominatorTree nodeIdxs idx +
            (dominatedBy dominatorTree nodeIdxs idx).length - 1 - place) 0 =
        value ((dominatedBy dominatorTree done idx).getD place 0)

/-- The third loop after some nodes. -/
structure Filling (value : Nat → Nat) (dominatorTree nodeIdxs done : List Nat)
    (nodeCount : Nat) (slots : List Nat) : Prop extends
    Written value dominatorTree nodeIdxs done nodeCount slots where
  free : ∀ idx < nodeCount, (dominatedBy dominatorTree done idx).length <
          (dominatedBy dominatorTree nodeIdxs idx).length →
        slots.getD (startOf dominatorTree nodeIdxs idx) 0 =
          (dominatedBy dominatorTree nodeIdxs idx).length -
            (dominatedBy dominatorTree done idx).length

theorem dominatedBy_append (done rest : List Nat) (idx : Nat) :
    dominatedBy dominatorTree (done ++ rest) idx =
      dominatedBy dominatorTree done idx ++ dominatedBy dominatorTree rest idx :=
  filter_append done rest

theorem dominatedBy_singleton_self (nodeIdx : Nat) :
    dominatedBy dominatorTree [nodeIdx] (dominatorTree.getD nodeIdx 0) = [nodeIdx] := by
  simp [dominatedBy]

theorem dominatedBy_singleton_of_ne {nodeIdx idx : Nat}
    (apart : dominatorTree.getD nodeIdx 0 ≠ idx) :
    dominatedBy dominatorTree [nodeIdx] idx = [] := by
  rw [dominatedBy, filter_cons_of_neg (by simpa using apart)]
  rfl

theorem Written.slice {value : Nat → Nat} {slots : List Nat}
    (written : Written value dominatorTree nodeIdxs nodeIdxs nodeCount slots)
    {idx : Nat} (inside : idx < nodeCount) :
    ((range' (startOf dominatorTree nodeIdxs idx) (startOf dominatorTree nodeIdxs (idx + 1) -
          startOf dominatorTree nodeIdxs idx)).map fun slot =>
      slots.getD slot 0) =
      ((dominatedBy dominatorTree nodeIdxs idx).map value).reverse := by
  rw [startOf_succ, Nat.add_sub_cancel_left]
  apply ext_getElem
  · rw [length_map, length_range', length_reverse, length_map]
  · intro place inSlice inReverse
    rw [length_reverse, length_map] at inReverse
    rw [getElem_map, getElem_range', getElem_reverse, getElem_map]
    have filled := written.filled idx inside
      ((dominatedBy dominatorTree nodeIdxs idx).length - 1 - place) (by omega)
    simp only [length_map]
    rw [← getD_eq_getElem _ 0, ← filled]
    congr 1
    omega

section Next

variable {done rest : List Nat} {nodeIdx dominator : Nat}

theorem dominatedBy_next (isDominator : dominatorTree.getD nodeIdx 0 = dominator) (idx : Nat) :
    dominatedBy dominatorTree (done ++ [nodeIdx]) idx = dominatedBy dominatorTree done idx ++
        if dominator = idx then [nodeIdx] else [] := by
  rw [dominatedBy_append]
  congr 1
  split_ifs with same
  · rw [← same, ← isDominator, dominatedBy_singleton_self]
  · exact dominatedBy_singleton_of_ne (isDominator ▸ same)

variable (isNext : nodeIdxs = done ++ nodeIdx :: rest)
  (isDominator : dominatorTree.getD nodeIdx 0 = dominator)

include isNext

theorem length_dominatedBy_next_le (idx : Nat) :
    (dominatedBy dominatorTree (done ++ [nodeIdx]) idx).length ≤
      (dominatedBy dominatorTree nodeIdxs idx).length := by
  rw [isNext, append_cons done nodeIdx rest, dominatedBy_append _ rest, length_append]
  exact Nat.le_add_right _ _

include isDominator

theorem lt_length_dominatedBy :
    (dominatedBy dominatorTree done dominator).length <
      (dominatedBy dominatorTree nodeIdxs dominator).length := by
  have least : (dominatedBy dominatorTree (done ++ [nodeIdx]) dominator).length ≤
      (dominatedBy dominatorTree nodeIdxs dominator).length :=
    length_dominatedBy_next_le isNext dominator
  rwa [dominatedBy_next isDominator, if_pos rfl, length_append] at least

/-- One more node is put into the last free slot of the slice of its dominator;
besides it, the first slot of the slice may change. -/
theorem Written.next {value : Nat → Nat} {slots written : List Nat}
    (before : Written value dominatorTree nodeIdxs done nodeCount slots)
    (length : written.length = slots.length)
    (put : written.getD (startOf dominatorTree nodeIdxs dominator +
        (dominatedBy dominatorTree nodeIdxs dominator).length - 1 -
          (dominatedBy dominatorTree done dominator).length) 0 = value nodeIdx)
    (kept : ∀ place, place ≠ startOf dominatorTree nodeIdxs dominator →
      place ≠ startOf dominatorTree nodeIdxs dominator +
        (dominatedBy dominatorTree nodeIdxs dominator).length - 1 -
          (dominatedBy dominatorTree done dominator).length →
        written.getD place 0 = slots.getD place 0) :
    Written value dominatorTree nodeIdxs (done ++ [nodeIdx]) nodeCount written := by
  have more := lt_length_dominatedBy isNext isDominator
  refine ⟨length.trans before.length, fun idx inCount place within => ?_⟩
  have least : (dominatedBy dominatorTree (done ++ [nodeIdx]) idx).length ≤
      (dominatedBy dominatorTree nodeIdxs idx).length :=
    length_dominatedBy_next_le isNext idx
  rw [dominatedBy_next isDominator] at within least ⊢
  by_cases same : dominator = idx
  · subst same
    rw [if_pos rfl] at within ⊢
    rw [length_append, length_singleton] at within
    rcases lt_or_ge place (dominatedBy dominatorTree done dominator).length
      with earlier | last
    · rw [kept _ (by omega) (by omega), getD_append _ _ _ _ earlier]
      exact before.filled dominator inCount place earlier
    · have isLast : place = (dominatedBy dominatorTree done dominator).length := by omega
      rw [isLast, put, getD_append_right _ _ _ _ (Nat.le_refl _), Nat.sub_self]
      rfl
  · rw [if_neg same, append_nil] at within least ⊢
    -- the slots of another slice are not written
    have apart := Nat.lt_or_gt_of_ne same
    have behind := @startOf_add_le dominatorTree nodeIdxs dominator idx
    have ahead := @startOf_add_le dominatorTree nodeIdxs idx dominator
    rw [kept _ (by omega) (by omega)]
    exact before.filled idx inCount place within

theorem Filling.next {value : Nat → Nat} {slots : List Nat}
    (filling : Filling value dominatorTree nodeIdxs done nodeCount slots)
    (inRange : ∀ nodeIdx ∈ nodeIdxs, dominatorTree.getD nodeIdx 0 < nodeCount)
    (inside : dominator < nodeCount) {slot free : Nat}
    (isSlot : slot = startOf dominatorTree nodeIdxs dominator)
    (isFree : free = slots.getD slot 0 - 1) :
    Filling value dominatorTree nodeIdxs (done ++ [nodeIdx]) nodeCount
      ((slots.set slot free).set (slot + free) (value nodeIdx)) := by
  have more := lt_length_dominatedBy isNext isDominator
  have bound : startOf dominatorTree nodeIdxs dominator +
      (dominatedBy dominatorTree nodeIdxs dominator).length ≤ slots.length := by
    rw [filling.length, ← startOf_eq_length dominatorTree nodeIdxs inRange]
    exact startOf_add_le dominatorTree nodeIdxs inside
  rw [isSlot, filling.free dominator inside more] at isFree
  subst isSlot
  refine ⟨filling.toWritten.next isNext isDominator ?_ ?_ ?_, ?_⟩
  · rw [length_set, length_set]
  · rw [getD_set, length_set, if_pos (by omega)]
  · intro place notFirst notLast
    rw [getD_set, getD_set, if_neg (by omega), if_neg (by omega)]
  · intro idx inCount some
    rw [dominatedBy_next isDominator] at some ⊢
    by_cases same : dominator = idx
    · subst same
      rw [if_pos rfl, length_append, length_singleton] at some ⊢
      rw [getD_set, getD_set, if_neg (by omega), if_pos (by omega)]
      omega
    · rw [if_neg same, append_nil] at some ⊢
      have apart := Nat.lt_or_gt_of_ne same
      have behind := @startOf_add_le dominatorTree nodeIdxs dominator idx
      have ahead := @startOf_add_le dominatorTree nodeIdxs idx dominator
      rw [getD_set, getD_set, if_neg (by omega), if_neg (by omega)]
      exact filling.free idx inCount some

end Next

variable {firstDominatedNodesIdx dominatedNodes : List Nat}

theorem filling_foldl (filling : Filling id dominatorTree nodeIdxs [] nodeCount dominatedNodes)
    (starts : ∀ idx < nodeCount,
        firstDominatedNodesIdx.getD idx 0 = startOf dominatorTree nodeIdxs idx)
    (inRange : ∀ nodeIdx ∈ nodeIdxs, dominatorTree.getD nodeIdx 0 < nodeCount) (done : List Nat) :
    done <+: nodeIdxs → Filling id dominatorTree nodeIdxs done nodeCount
        (done.foldl (fillSlot dominatorTree firstDominatedNodesIdx) dominatedNodes) := by
  induction done using reverseRecOn with
  | nil =>
    intro _
    exact filling
  | append_singleton done nodeIdx ih =>
    rintro ⟨rest, isNext⟩
    rw [append_assoc, singleton_append] at isNext
    have inside := inRange nodeIdx (isNext ▸ by simp)
    rw [foldl_append]
    exact (ih ⟨nodeIdx :: rest, isNext⟩).next isNext.symm rfl inRange inside (starts _ inside) rfl

end Slices

section FillSlices

variable {nodeIdxs dominatorTree : List Nat}
  (size : nodeIdxs.length = dominatorTree.length - 1)
  (inRange : ∀ nodeIdx ∈ nodeIdxs, dominatorTree.getD nodeIdx 0 < dominatorTree.length)

theorem length_countNodes (dominatorTree nodeIdxs : List Nat) :
    ∀ counts : List Nat, (nodeIdxs.foldl (countNode dominatorTree) counts).length =
        counts.length := by
  induction nodeIdxs with
  | nil =>
    intro counts
    rfl
  | cons nodeIdx rest ih =>
    intro counts
    rw [foldl_cons, ih, countNode, length_set]

include size

theorem placing_start :
    Placing dominatorTree nodeIdxs dominatorTree.length 0 (⟨nodeIdxs.foldl (countNode dominatorTree)
          (replicate (dominatorTree.length + 1) 0),
        replicate (dominatorTree.length - 1) 0⟩, 0) where
  start := rfl
  firstLength := by
    rw [length_countNodes, length_replicate]
  length := by
    rw [length_replicate, size]
  starts := by
    intro idx before
    cases before
  counts := by
    intro idx inside _
    rw [getD_countNodes dominatorTree nodeIdxs (Nat.lt_succ_of_lt inside) length_replicate]
    simp [getD_eq_getElem?_getD]
  free := by
    intro idx before
    cases before

include inRange

theorem getD_firstDominatedNodesIdx {idx : Nat} (inside : idx ≤ dominatorTree.length) :
    (fillSlices nodeIdxs dominatorTree).firstDominatedNodesIdx.getD idx 0 =
      startOf dominatorTree nodeIdxs idx := by
  have placing :=
    placing_foldl (placing_start size) inRange (le_refl _)
  rw [fillSlices, getD_set]
  rcases eq_or_lt_of_le inside with last | before
  · rw [if_pos ⟨last.symm, by rw [placing.firstLength]; omega⟩, placing.length,
      last, startOf_eq_length dominatorTree nodeIdxs inRange]
  · rw [if_neg (by omega)]
    exact placing.starts idx before

theorem filling_fillSlices :
    Filling id dominatorTree nodeIdxs nodeIdxs dominatorTree.length
      (fillSlices nodeIdxs dominatorTree).dominatedNodes := by
  have placing :=
    placing_foldl (placing_start size) inRange (le_refl _)
  have starts : ∀ idx < dominatorTree.length,
      (fillSlices nodeIdxs dominatorTree).firstDominatedNodesIdx.getD idx 0 =
        startOf dominatorTree nodeIdxs idx := fun idx before =>
    getD_firstDominatedNodesIdx size inRange (le_of_lt before)
  apply filling_foldl _ starts inRange nodeIdxs prefix_rfl
  refine ⟨⟨placing.length, nofun⟩, ?_⟩
  intro idx inside some
  rw [placing.free idx inside some]
  rfl

theorem slice_fillSlices {idx : Nat} (inside : idx < dominatorTree.length) :
    (fillSlices nodeIdxs dominatorTree).slice idx =
      (dominatedBy dominatorTree nodeIdxs idx).reverse := by
  have slice := (filling_fillSlices size inRange).slice inside
  rw [map_id] at slice
  rw [DominatedNodes.slice, getD_firstDominatedNodesIdx size inRange (le_of_lt inside),
    getD_firstDominatedNodesIdx size inRange (Nat.succ_le_of_lt inside)]
  exact slice

end FillSlices

/-- `dominatorTree`, the dominators of the nodes by their indexes, from the first node on. -/
structure DominatorTree where
  dominators : List Nat
  nonempty : 0 < dominators.length
  inRange : ∀ idx < dominators.length, dominators.getD idx 0 < dominators.length
  first : dominators.getD 0 0 = 0
  reaches : ∀ idx < dominators.length, ∃ steps, (fun node => dominators.getD node 0)^[steps] idx = 0

namespace DominatorTree

def toParentTree (tree : DominatorTree) : ParentTree Nat where
  vertices := Finset.range tree.dominators.length
  parent := fun idx => tree.dominators.getD idx 0
  root := 0
  root_mem := Finset.mem_range.2 tree.nonempty
  parent_mem := by
    intro idx member
    exact Finset.mem_range.2 (tree.inRange idx (Finset.mem_range.1 member))
  parent_root := tree.first
  reaches := by
    intro idx member
    exact tree.reaches idx (Finset.mem_range.1 member)

variable (tree : DominatorTree)

/-- The nodes that a node dominates immediately, by their indexes. -/
def dominated (idx : Nat) : List Nat :=
  dominatedBy tree.dominators (range' 1 (tree.dominators.length - 1)) idx

theorem nodup_dominated (idx : Nat) : (tree.dominated idx).Nodup :=
  List.Nodup.filter _ nodup_range'

theorem toFinset_dominated (idx : Nat) :
    (tree.dominated idx).toFinset = tree.toParentTree.children idx := by
  have nonempty := tree.nonempty
  ext child
  rw [mem_toFinset, dominated, dominatedBy, mem_filter,
    mem_range'_1, ParentTree.mem_children, beq_iff_eq, ← and_assoc]
  apply and_congr_left'
  show _ ↔ child ∈ Finset.range tree.dominators.length ∧ child ≠ 0
  rw [Finset.mem_range]
  omega

theorem sum_dominated (idx : Nat) (amount : Nat → Nat) :
    ((tree.dominated idx).map amount).sum =
      ∑ child ∈ tree.toParentTree.children idx, amount child := by
  rw [← tree.toFinset_dominated, sum_toFinset amount (tree.nodup_dominated idx)]

theorem nodeIdxs_inRange :
    ∀ nodeIdx ∈ range' 1 (tree.dominators.length - 1),
      tree.dominators.getD nodeIdx 0 < tree.dominators.length := by
  intro nodeIdx member
  rw [mem_range'_1] at member
  exact tree.inRange nodeIdx (by omega)

section Built

variable {tree : DominatorTree} {built : DominatedNodes}
  (isBuilt : buildDominatedNode 0 tree.dominators = .ok built)

include isBuilt

theorem eq_fillSlices :
    built = fillSlices (range' 1 (tree.dominators.length - 1)) tree.dominators := by
  rw [buildDominatedNode, if_pos rfl] at isBuilt
  exact (Except.ok.inj isBuilt).symm

theorem slice_eq {idx : Nat} (inside : idx < tree.dominators.length) :
    built.slice idx = (tree.dominated idx).reverse := by
  rw [eq_fillSlices isBuilt]
  exact slice_fillSlices length_range' tree.nodeIdxs_inRange inside

theorem starts_eq_iff {idx : Nat} (inside : idx < tree.dominators.length) :
    built.firstDominatedNodesIdx.getD idx 0 = built.firstDominatedNodesIdx.getD (idx + 1) 0 ↔
      tree.dominated idx = [] := by
  rw [eq_fillSlices isBuilt, getD_firstDominatedNodesIdx length_range' tree.nodeIdxs_inRange
    (le_of_lt inside),
    getD_firstDominatedNodesIdx length_range' tree.nodeIdxs_inRange (Nat.succ_le_of_lt inside),
    startOf_succ, Nat.left_eq_add, length_eq_zero_iff]
  rfl

end Built

end DominatorTree

end SysAnalyzer.JsHeap
