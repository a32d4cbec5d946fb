import SysAnalyzer.Foundation.MergeTree

/-!
# Merging a call chain by index

The call trees of perf and of file system samples take a chain by one recursion:
it goes down an index from the first frame, or up from the last one, and merges
each frame into the children of the node before.

In both directions this is `mergeChain` on the frames behind the index.  Here and
in the other modules on the workers numbers are integers, and stand for those
below 2^53, which are exact in the source.
-/

namespace SysAnalyzer.LogicWorker

open Foundation List

universe u v

variable {Data : Type u} {Frame : Type v}

def directed (isTopDown : Bool) (callChains : List Frame) : List Frame :=
  if isTopDown then callChains else callChains.reverse

def topIndex (isTopDown : Bool) (callChains : List Frame) : Nat :=
  if isTopDown then 0 else callChains.length - 1

/-- The recursion of both trees on the index, with a bound on its rounds.  A
child that matches absorbs the frame, and the last of them is gone into. -/
def mergeByIndex (same : Data → Frame → Bool) (fresh : Data)
    (absorb : Data → Frame → Bool → Data) (callChains : List Frame) (isTopDown : Bool) :
    (rounds : Nat) → MergeTree Data → (index : Nat) → MergeTree Data
  | 0, currentNode, _ => currentNode
  | rounds + 1, currentNode, before =>
    let index := if isTopDown then before + 1 else before - 1
    let isEnd := if isTopDown then callChains.length == index + 1 else index == 0
    let descend := fun node =>
      if isEnd then node
      else mergeByIndex same fresh absorb callChains isTopDown rounds node index
    match callChains[index]? with
    | none => currentNode
    | some frame =>
      let children := currentNode.children
      match lastMatch (fun child => same child.data frame) children with
      | none =>
        .node currentNode.data <| children ++ [descend (.node (absorb fresh frame isEnd) [])]
      | some (others, node, after) =>
        .node currentNode.data <| others.map (touch same absorb frame isEnd) ++
          descend (.node (absorb node.data frame isEnd) node.children) :: after

def indexOf (isTopDown : Bool) (callChains : List Frame) (place : Nat) : Nat :=
  if isTopDown then place else callChains.length - 1 - place

theorem topIndex_eq_indexOf (isTopDown : Bool) (callChains : List Frame) :
    topIndex isTopDown callChains = indexOf isTopDown callChains 0 := by
  cases isTopDown <;> rfl

@[simp]
theorem length_directed (isTopDown : Bool) (callChains : List Frame) :
    (directed isTopDown callChains).length = callChains.length := by
  cases isTopDown <;> simp [directed]

theorem getElem?_indexOf {isTopDown : Bool} {callChains : List Frame}
    {place : Nat} (within : place < callChains.length) :
    callChains[indexOf isTopDown callChains place]? = (directed isTopDown callChains)[place]? := by
  cases isTopDown
  · simp [indexOf, directed, List.getElem?_reverse within]
  · rfl

/-- The recursion over an index merges the frames behind the index. -/
theorem mergeByIndex_eq (same : Data → Frame → Bool) (fresh : Data)
    (absorb : Data → Frame → Bool → Data) (callChains : List Frame)
    (isTopDown : Bool) (rounds place : Nat) (within : place + 1 < callChains.length)
    (enough : callChains.length ≤ place + 1 + rounds)
    (data : Data) (children : List (MergeTree Data)) :
    mergeByIndex same fresh absorb callChains isTopDown rounds
      (.node data children) (indexOf isTopDown callChains place) =
      .node data (mergeChain same fresh absorb
        ((directed isTopDown callChains).drop (place + 1)) children) := by
  induction rounds generalizing place data children with
  | zero => omega
  | succ rounds induction =>
    have next : (if isTopDown then indexOf isTopDown callChains place + 1
      else indexOf isTopDown callChains place - 1) =
      indexOf isTopDown callChains (place + 1) := by
      cases isTopDown <;> simp [indexOf]
      omega
    have length := length_directed isTopDown callChains
    have split : (directed isTopDown callChains).drop (place + 1) =
      (directed isTopDown callChains)[place + 1] ::
        (directed isTopDown callChains).drop (place + 1 + 1) :=
      drop_eq_getElem_cons (by omega)
    have entry : callChains[indexOf isTopDown callChains (place + 1)]? =
      some (directed isTopDown callChains)[place + 1] := by
      rw [getElem?_indexOf within, List.getElem?_eq_getElem]
    have ended : (if isTopDown then
      callChains.length == indexOf isTopDown callChains (place + 1) + 1
      else indexOf isTopDown callChains (place + 1) == 0) =
      ((directed isTopDown callChains).drop (place + 1 + 1)).isEmpty := by
      have empty : ((directed isTopDown callChains).drop (place + 1 + 1)).isEmpty =
        decide (callChains.length ≤ place + 1 + 1) := by
        rw [Bool.eq_iff_iff, List.isEmpty_iff, drop_eq_nil_iff, length, decide_eq_true_iff]
      rw [empty, Bool.eq_iff_iff, decide_eq_true_iff]
      cases isTopDown
      · simp only [indexOf, Bool.false_eq_true, if_false, beq_iff_eq]
        omega
      · simp only [indexOf, if_true, beq_iff_eq]
        omega
    have descend : ∀ (nodeData : Data) (nodeChildren : List (MergeTree Data)),
      (if ((directed isTopDown callChains).drop (place + 1 + 1)).isEmpty then
        .node nodeData nodeChildren
        else
          mergeByIndex same fresh absorb callChains isTopDown rounds (.node nodeData nodeChildren)
            (indexOf isTopDown callChains (place + 1))) =
        MergeTree.node nodeData (mergeChain same fresh absorb
          ((directed isTopDown callChains).drop (place + 1 + 1))
          nodeChildren) := by
      intro nodeData nodeChildren
      by_cases last : callChains.length ≤ place + 1 + 1
      · have none : (directed isTopDown callChains).drop (place + 1 + 1) = [] := by
          rw [drop_eq_nil_iff, length]
          exact last
        rw [none]
        rfl
      · have more : ((directed isTopDown callChains).drop (place + 1 + 1)).isEmpty = false := by
          rw [isEmpty_eq_false_iff, Ne, drop_eq_nil_iff, length]
          exact last
        rw [more]
        exact induction (place + 1) (by omega) (by omega) _ _
    rw [mergeByIndex, next]
    dsimp only
    rw [ended, entry, split, mergeChain]
    dsimp only [MergeTree.children_node, MergeTree.data_node]
    cases lastMatch (fun child =>
      same child.data (directed isTopDown callChains)[place + 1])
      children with
    | none =>
      dsimp only
      rw [descend]
    | some parts =>
      dsimp only
      rw [descend]

end SysAnalyzer.LogicWorker
