import SysAnalyzer.LogicWorker.DataSplitRuns
import SysAnalyzer.LogicWorker.NativeAttribution

/-!
# Search in the visible tree

A search goes down the visible tree, and from what it finds up the chain of
`parentNode` as far as a node that is shown.  `searchShow` of a hidden node stays
set, so the way up ends below it.
-/

namespace SysAnalyzer.LogicWorker

open Foundation List
open DataSplit

namespace MergedCallTree

variable (tree : MergedCallTree)

def IsNode (ref : Nat) : Prop := ∃ entry ∈ tree.entries, entry.2.ref = ref

/-- A node and those above it. -/
def chainOf (ref : Nat) : List Nat := ref :: tree.parentNodes ref

variable {tree} {ref upper lower : Nat}

theorem IsNode.chainOf_of_append (isNode : tree.IsNode ref) {below above : List Nat}
    (split : tree.chainOf ref = below ++ upper :: above) :
    tree.IsNode upper ∧ tree.chainOf upper = upper :: above := by
  rcases isNode with ⟨entry, member, rfl⟩
  have whole := eq_cons_of_mem_head? (tree.head?_of_mem_entries member)
  have places : entry.1.map MerageBean.ref = below ++ upper :: above := by
    rw [← split, chainOf, tree.parentNodes_of_mem member, ← map_cons, ← whole]
  rcases map_eq_append_iff.1 places with ⟨before, rest, place, rfl, isRest⟩
  rcases map_eq_cons_iff.1 isRest with ⟨bean, others, rfl, rfl, rfl⟩
  rcases exists_of_suffix_preorderAll member ⟨before, place.symm⟩ nil_suffix with ⟨other, isOther⟩
  have isBean : bean = other := Option.some_inj.1 (tree.head?_of_mem_entries isOther)
  subst isBean
  exact ⟨⟨_, isOther, rfl⟩, by rw [chainOf, tree.parentNodes_of_mem isOther]; rfl⟩

theorem IsNode.exists_below (isNode : tree.IsNode ref) (above : upper ∈ tree.chainOf ref) :
    tree.IsNode upper ∧ ∃ below, tree.chainOf ref = below ++ tree.chainOf upper := by
  rcases append_of_mem above with ⟨below, rest, split⟩
  rcases isNode.chainOf_of_append split with ⟨isUpper, chain⟩
  exact ⟨isUpper, below, by rw [chain, split]⟩

theorem IsNode.mem_chainOf (isNode : tree.IsNode ref) (above : upper ∈ tree.chainOf ref)
    {top : Nat} (higher : top ∈ tree.chainOf upper) : top ∈ tree.chainOf ref := by
  rcases (isNode.exists_below above).2 with ⟨below, split⟩
  rw [split]
  exact mem_append_right _ higher

theorem IsNode.length_lt (isNode : tree.IsNode ref) (above : upper ∈ tree.parentNodes ref) :
    (tree.chainOf upper).length < (tree.chainOf ref).length := by
  rcases append_of_mem above with ⟨below, rest, split⟩
  have whole : tree.chainOf ref = (ref :: below) ++ upper :: rest := by
    rw [chainOf, split, cons_append]
  rw [(isNode.chainOf_of_append whole).2, whole, length_append]
  exact Nat.lt_add_of_pos_left (Nat.succ_pos _)

theorem IsNode.not_mem_chainOf (isNode : tree.IsNode ref) (above : upper ∈ tree.parentNodes ref) :
    ref ∉ tree.chainOf upper := by
  intro around
  rcases ((isNode.exists_below (mem_cons_of_mem _ above)).1.exists_below around).2 with
    ⟨below, split⟩
  have shorter := isNode.length_lt above
  rw [split, length_append] at shorter
  omega

/-- Of two nodes above a node, one is above the other. -/
theorem IsNode.chainOf_total (isNode : tree.IsNode lower) (first : ref ∈ tree.chainOf lower)
    (second : upper ∈ tree.chainOf lower) :
    ref ∈ tree.chainOf upper ∨ upper ∈ tree.chainOf ref := by
  rcases (isNode.exists_below first).2 with ⟨below, split⟩
  rw [split, mem_append] at second
  rcases second with between | above
  · rcases append_of_mem between with ⟨before, after, rfl⟩
    rw [append_assoc, cons_append] at split
    rw [(isNode.chainOf_of_append split).2]
    exact .inl (mem_cons_of_mem _ (mem_append_right _ mem_cons_self))
  · exact .inr above

theorem IsNode.exists_process (isNode : tree.IsNode ref) :
    ∃ process ∈ tree.processRefs, process ∈ tree.chainOf ref := by
  rcases eq_nil_or_concat (tree.chainOf ref) with none | ⟨below, process, split⟩
  · cases none
  · rw [concat_eq_append] at split
    rcases isNode.chainOf_of_append split with ⟨⟨entry, member, rfl⟩, alone⟩
    rw [chainOf, tree.parentNodes_of_mem member, cons.injEq, map_eq_nil_iff] at alone
    exact ⟨_, (tree.mem_processRefs_or_listed member).1 alone.2, by simp [split]⟩

theorem chainOf_process (isProcess : ref ∈ tree.processRefs) :
    tree.IsNode ref ∧ tree.chainOf ref = [ref] := by
  rcases tree.singleton_mem_entries isProcess with ⟨bean, member, rfl⟩
  exact ⟨⟨_, member, rfl⟩, by rw [chainOf, tree.parentNodes_of_mem member]; rfl⟩

theorem isNode_of_listed (listed : ref ∈ tree.currentTreeList) : tree.IsNode ref := by
  rcases (tree.mem_currentTreeList_iff ref).1 listed with ⟨entry, member, _, isRef⟩
  exact ⟨entry, member, isRef⟩

variable (tree) (isOpen isHit : Nat → Bool)

/-- A node and those above it, as far as a node that is not open. -/
def openChain (ref : Nat) : List Nat := (tree.chainOf ref).takeWhile isOpen

/-- A hit at a node or above it. -/
def foundAt (ref : Nat) : Bool := (tree.chainOf ref).any fun upper => isOpen upper && isHit upper

/-- The open nodes below some nodes, with these. -/
def below (nodes : List Nat) : Set Nat :=
  {ref | tree.IsNode ref ∧ isOpen ref ∧ ∃ node ∈ nodes, node ∈ tree.chainOf ref}

/-- The nodes that hang at a node if the open ones are shown. -/
def hungAt (parent : Nat) : List Nat :=
  tree.currentTreeList.filter fun item =>
    isOpen item && ((tree.parentNodes item).find? isOpen == some parent)

/-- What is shown after some nodes are searched. -/
structure Searched (visited : Set Nat) (searchShow : Nat → Bool) : Prop where
  isNode : ∀ ref ∈ visited, tree.IsNode ref ∧ isOpen ref
  hidden : ∀ ref, tree.IsNode ref → isOpen ref = false → searchShow ref
  shown : ∀ ref ∈ visited, searchShow ref ↔ ∃ lower ∈ visited,
    tree.foundAt isOpen isHit lower ∧ ref ∈ tree.openChain isOpen lower

/-- Nodes to search next: nothing below them is searched yet, and all open nodes above them. -/
structure Front (visited : Set Nat) (parentSearch : Bool) (nodes : List Nat) : Prop where
  isNode : ∀ node ∈ nodes, tree.IsNode node ∧ isOpen node
  above : ∀ node ∈ nodes, ∀ upper ∈ tree.parentNodes node, isOpen upper → upper ∈ visited
  fresh : ∀ node ∈ nodes, ∀ ref ∈ visited, node ∉ tree.chainOf ref
  apart : nodes.Pairwise fun first second =>
    first ∉ tree.chainOf second ∧ second ∉ tree.chainOf first
  isFound : ∀ node ∈ nodes, (parentSearch || isHit node) = tree.foundAt isOpen isHit node

variable {tree isOpen isHit} {visited : Set Nat}

theorem mem_takeWhile_or_stops {Element : Type*} {isOpen : Element → Bool}
    (isShown : Element → Bool) {element : Element} :
    ∀ {list : List Element}, element ∈ list.takeWhile isOpen →
      element ∈ list.takeWhile (fun other => !isShown other) ∨ ∃ before stop after,
        list = before ++ stop :: after ∧ isShown stop ∧ isOpen stop ∧
          element ∈ (stop :: after).takeWhile isOpen
  | first :: list, member => by
    cases isFirst : isOpen first with
    | false => simp [isFirst] at member
    | true =>
      cases shown : isShown first with
      | true => exact .inr ⟨[], first, list, rfl, shown, isFirst, member⟩
      | false =>
        rw [takeWhile_cons_of_pos isFirst, mem_cons] at member
        rw [takeWhile_cons_of_pos (by rw [shown]; rfl), mem_cons]
        rcases member with here | later
        · exact .inl (.inl here)
        · rcases mem_takeWhile_or_stops isShown later with through | stops
          · exact .inl (.inr through)
          · rcases stops with ⟨before, stop, after, rfl, rest⟩
            exact .inr ⟨first :: before, stop, after, rfl, rest⟩

theorem IsNode.openChain_split (isNode : tree.IsNode lower)
    (inner : ref ∈ tree.openChain isOpen lower) : tree.IsNode ref ∧
      ∃ before, tree.chainOf lower = before ++ tree.chainOf ref ∧
        ∀ other ∈ before, isOpen other := by
  rcases append_of_mem inner with ⟨before, after, split⟩
  have whole : tree.chainOf lower =
    before ++ ref :: (after ++ (tree.chainOf lower).dropWhile isOpen) := by
    rw [← cons_append, ← append_assoc, ← split, openChain, takeWhile_append_dropWhile]
  rcases isNode.chainOf_of_append whole with ⟨isRef, chain⟩
  refine ⟨isRef, before, by rw [chain, ← whole], ?_⟩
  intro other member
  exact mem_takeWhile_imp (split ▸ mem_append_left _ member)

theorem IsNode.openChain_subset (isNode : tree.IsNode lower)
    (inner : ref ∈ tree.openChain isOpen lower) (higher : upper ∈ tree.openChain isOpen ref) :
    upper ∈ tree.openChain isOpen lower := by
  rcases (isNode.openChain_split inner).2 with ⟨before, split, allOpen⟩
  rw [openChain, split, takeWhile_append_of_pos allOpen]
  exact mem_append_right _ higher

theorem mem_openChain_self (refOpen : isOpen ref) : ref ∈ tree.openChain isOpen ref := by
  rw [openChain, chainOf, takeWhile_cons_of_pos refOpen]
  exact mem_cons_self

theorem isOpen_of_mem_openChain (inner : ref ∈ tree.openChain isOpen lower) : isOpen lower := by
  by_contra closed
  rw [openChain, chainOf, takeWhile_cons_of_neg closed] at inner
  cases inner

theorem mem_chainOf_of_openChain (inner : ref ∈ tree.openChain isOpen lower) :
    ref ∈ tree.chainOf lower ∧ isOpen ref :=
  ⟨takeWhile_subset _ inner, mem_takeWhile_imp inner⟩

/-- The symbol name of a node contains the text. -/
def hits (tree : MergedCallTree) (includesSearch : String → String → Bool) (search : String)
    (ref : Nat) : Bool :=
  tree.symbolName ref != "" && includesSearch (tree.symbolName ref) search

variable {includesSearch : String → String → Bool} {search : String} {parentSearch : Bool}
  {state : DataSplit} {node : Nat} {nodes : List Nat}

section

variable
  (searched : Searched tree isOpen (tree.hits includesSearch search) visited state.searchShow)
  (front : Front tree isOpen (tree.hits includesSearch search) visited parentSearch (node :: nodes))
include front

theorem Front.searchShow_eq (ref : Nat) :
    (tree.showNode includesSearch search parentSearch state node).searchShow ref =
      if ref = node then tree.foundAt isOpen (tree.hits includesSearch search) node
      else state.searchShow ref || (tree.foundAt isOpen (tree.hits includesSearch search) node &&
        ((tree.parentNodes node).takeWhile fun parent =>
          !state.searchShow parent).contains ref) := by
  rw [← front.isFound node mem_cons_self]
  rfl

include searched

/-- Where a node is found, the way up from it reaches what is open above it or was shown before. -/
theorem Searched.shown_above (isOther : ref ≠ node) (inVisited : ref ∈ visited) :
    (state.searchShow ref = true ∨
      ref ∈ (tree.parentNodes node).takeWhile fun parent => !state.searchShow parent) ↔
      state.searchShow ref = true ∨ ref ∈ tree.openChain isOpen node := by
  rcases front.isNode node mem_cons_self with ⟨isNode, nodeOpen⟩
  have chain : tree.openChain isOpen node = node :: (tree.parentNodes node).takeWhile isOpen := by
    rw [openChain, chainOf, takeWhile_cons_of_pos nodeOpen]
  have split : ∀ {before after : List Nat} {stop : Nat},
    tree.parentNodes node = before ++ stop :: after →
      tree.IsNode stop ∧ tree.chainOf stop = stop :: after := fun {before _ _} whole =>
    @IsNode.chainOf_of_append _ _ _ isNode (node :: before) _ (by rw [chainOf, whole, cons_append])
  rw [chain, mem_cons, or_iff_right isOther]
  constructor
  · rintro (before | marked)
    · exact .inl before
    · rcases mem_takeWhile_or_stops (fun parent => !isOpen parent) marked with
        through | ⟨before, stop, after, whole, closed, notShown, _⟩
      · simp only [Bool.not_not] at through
        exact .inr through
      · have shown := searched.hidden stop (split whole).1 (by simpa using closed)
        simp [shown] at notShown
  · rintro (before | inner)
    · exact .inl before
    · rcases mem_takeWhile_or_stops state.searchShow inner with
        through | ⟨before, stop, after, whole, shown, stopOpen, further⟩
      · exact .inr through
      -- What made the node shown at which the way up stops has shown what is above it.
      · have isAbove : stop ∈ tree.parentNodes node := by simp [whole]
        have stopVisited := front.above node mem_cons_self stop isAbove stopOpen
        rcases (searched.shown stop stopVisited).1 shown with ⟨lower, isLower, found, through⟩
        rw [← (split whole).2] at further
        exact .inl ((searched.shown ref inVisited).2 ⟨lower, isLower, found,
          (searched.isNode lower isLower).1.openChain_subset through further⟩)

theorem Searched.showNode :
    Searched tree isOpen (tree.hits includesSearch search) (insert node visited)
      (tree.showNode includesSearch search parentSearch state node).searchShow := by
  rcases front.isNode node mem_cons_self with ⟨isNode, nodeOpen⟩
  refine ⟨?_, ?_, ?_⟩
  · rintro ref (rfl | inVisited)
    · exact ⟨isNode, nodeOpen⟩
    · exact searched.isNode ref inVisited
  · intro ref isRef closed
    have isOther : ref ≠ node := by
      rintro rfl
      exact absurd (closed.symm.trans nodeOpen) Bool.false_ne_true
    rw [front.searchShow_eq, if_neg isOther, searched.hidden ref isRef closed, Bool.true_or]
  · intro ref member
    rw [front.searchShow_eq]
    rcases member with rfl | inVisited
    · rw [if_pos rfl]
      constructor
      · intro found
        exact ⟨ref, .inl rfl, found, mem_openChain_self nodeOpen⟩
      · rintro ⟨lower, rfl | inVisited, found, inner⟩
        · exact found
        · exact absurd (mem_chainOf_of_openChain inner).1
            (front.fresh ref mem_cons_self lower inVisited)
    · have isOther : ref ≠ node := by
        rintro rfl
        exact front.fresh ref mem_cons_self ref inVisited mem_cons_self
      rw [if_neg isOther, Set.exists_mem_insert, ← searched.shown ref inVisited]
      cases found : tree.foundAt isOpen (tree.hits includesSearch search) node with
      | false => simp
      | true =>
        rw [Bool.true_and, Bool.or_eq_true, contains_iff_mem,
          searched.shown_above front isOther inVisited, or_comm, eq_self, true_and]

end

variable {isHit : Nat → Bool} {child : Nat}

theorem closed_of_hungAt (hangs : child ∈ tree.hungAt isOpen ref) :
    tree.IsNode child ∧ isOpen child ∧ isOpen ref ∧ ∃ closed,
      tree.parentNodes child = closed ++ tree.chainOf ref ∧
        ∀ other ∈ closed, isOpen other = false := by
  simp only [hungAt, mem_filter, Bool.and_eq_true, beq_iff_eq] at hangs
  rcases hangs with ⟨listed, childOpen, nearest⟩
  rcases find?_eq_some_iff_append.1 nearest with ⟨refOpen, closed, above, split, none⟩
  have isNode := isNode_of_listed listed
  have whole : tree.chainOf child = (child :: closed) ++ ref :: above := by
    rw [chainOf, split, cons_append]
  refine ⟨isNode, childOpen, refOpen, closed, ?_, ?_⟩
  · rw [split, (isNode.chainOf_of_append whole).2]
  · intro other member
    simpa using none other member

theorem mem_chainOf_of_hungAt (hangs : child ∈ tree.hungAt isOpen ref) :
    ref ∈ tree.parentNodes child ∧ ∀ upper ∈ tree.parentNodes child,
      isOpen upper → upper ∈ tree.chainOf ref := by
  rcases closed_of_hungAt hangs with ⟨_, _, _, closed, split, none⟩
  rw [split]
  refine ⟨mem_append_right _ mem_cons_self, ?_⟩
  intro upper member upperOpen
  rcases mem_append.1 member with inClosed | above
  · exact absurd ((none upper inClosed).symm.trans upperOpen) Bool.false_ne_true
  · exact above

theorem mem_chainOf_of_hangs (hangs :
    Relation.ReflTransGen (fun parent child => child ∈ tree.hungAt isOpen parent) node ref) :
    node ∈ tree.chainOf ref := by
  induction hangs with
  | refl => exact mem_cons_self
  | tail _ last induction =>
    rcases closed_of_hungAt last with ⟨_, _, _, closed, split, _⟩
    rw [chainOf, split]
    exact mem_cons_of_mem _ (mem_append_right _ induction)

/-- An open node hangs, over others perhaps, at each open node above it. -/
theorem IsNode.hangs (isNode : tree.IsNode ref) (refOpen : isOpen ref)
    (above : node ∈ tree.chainOf ref) (nodeOpen : isOpen node) :
    Relation.ReflTransGen (fun parent child => child ∈ tree.hungAt isOpen parent) node ref := by
  induction long : (tree.chainOf ref).length using Nat.strongRecOn generalizing ref with
  | ind length induction =>
    subst long
    rcases mem_cons.1 above with rfl | isAbove
    · exact .refl
    · cases nearest : (tree.parentNodes ref).find? isOpen with
      | none => exact absurd nodeOpen (find?_eq_none.1 nearest node isAbove)
      | some parent =>
        have listed : ref ∈ tree.currentTreeList := by
          rcases isNode with ⟨entry, member, rfl⟩
          rw [tree.parentNodes_of_mem member] at isAbove
          refine (tree.mem_processRefs_or_listed member).2 ?_
          rintro isProcess
          rw [isProcess] at isAbove
          cases isAbove
        have last : ref ∈ tree.hungAt isOpen parent := by
          simp only [hungAt, mem_filter, listed, refOpen, nearest, true_and, beq_self_eq_true,
            Bool.and_self]
        have inParents := (mem_chainOf_of_hungAt last).1
        have isParent := (isNode.exists_below (mem_cons_of_mem _ inParents)).1
        exact (induction _ (isNode.length_lt inParents) isParent (find?_some nearest)
          ((mem_chainOf_of_hungAt last).2 node isAbove nodeOpen) rfl).tail last

theorem below_singleton (isNode : tree.IsNode node) (nodeOpen : isOpen node) :
    tree.below isOpen [node] = insert node (tree.below isOpen (tree.hungAt isOpen node)) := by
  ext ref
  constructor
  · rintro ⟨isRef, refOpen, other, isOther, above⟩
    rw [mem_singleton.1 isOther] at above
    rcases Relation.ReflTransGen.cases_head (isRef.hangs refOpen above nodeOpen) with
      rfl | ⟨child, hangs, further⟩
    · exact .inl rfl
    · exact .inr ⟨isRef, refOpen, child, hangs, mem_chainOf_of_hangs further⟩
  · rintro (rfl | ⟨isRef, refOpen, child, hangs, above⟩)
    · exact ⟨isNode, nodeOpen, ref, mem_cons_self, mem_cons_self⟩
    · exact ⟨isRef, refOpen, node, mem_cons_self, isRef.mem_chainOf above
        (mem_cons_of_mem _ (mem_chainOf_of_hungAt hangs).1)⟩

section

variable (front : Front tree isOpen isHit visited parentSearch (node :: nodes))
include front

theorem Front.children (isNode : ∀ ref ∈ visited, tree.IsNode ref) :
    Front tree isOpen isHit (insert node visited) (tree.foundAt isOpen isHit node)
      (tree.hungAt isOpen node) := by
  have notAbove : ∀ child ∈ tree.hungAt isOpen node, child ∉ tree.chainOf node :=
    fun child hangs => (closed_of_hungAt hangs).1.not_mem_chainOf (mem_chainOf_of_hungAt hangs).1
  have apart : ∀ first ∈ tree.hungAt isOpen node, ∀ second ∈ tree.hungAt isOpen node,
    first ≠ second → first ∉ tree.chainOf second := by
    intro first isFirst second isSecond distinct inChain
    rcases mem_cons.1 inChain with same | above
    · exact distinct same
    · exact notAbove first isFirst
        ((mem_chainOf_of_hungAt isSecond).2 first above (closed_of_hungAt isFirst).2.1)
  refine ⟨?_, ?_, ?_, ?_, ?_⟩
  · exact fun child hangs => ⟨(closed_of_hungAt hangs).1, (closed_of_hungAt hangs).2.1⟩
  · intro child hangs upper above upperOpen
    rcases mem_cons.1 ((mem_chainOf_of_hungAt hangs).2 upper above upperOpen) with same | higher
    · exact .inl same
    · exact .inr (front.above node mem_cons_self upper higher upperOpen)
  · rintro child hangs ref (rfl | inVisited) inChain
    · exact notAbove child hangs inChain
    · exact front.fresh node mem_cons_self ref inVisited ((isNode ref inVisited).mem_chainOf inChain
        (mem_cons_of_mem _ (mem_chainOf_of_hungAt hangs).1))
  · refine (tree.nodup_currentTreeList.filter _).pairwise_of_forall_ne ?_
    exact fun first isFirst second isSecond distinct =>
      ⟨apart first isFirst second isSecond distinct,
        apart second isSecond first isFirst distinct.symm⟩
  · intro child hangs
    rcases closed_of_hungAt hangs with ⟨_, childOpen, _, closed, split, none⟩
    have noneFound : (closed.any fun upper => isOpen upper && isHit upper) = false := by
      rw [any_eq_false]
      intro upper member
      simp [none upper member]
    rw [foundAt, foundAt, chainOf.eq_def tree child, split, any_cons, any_append, noneFound,
      childOpen, Bool.true_and, Bool.false_or, Bool.or_comm]

theorem Front.tail :
    Front tree isOpen isHit (visited ∪ tree.below isOpen [node]) parentSearch nodes := by
  rcases pairwise_cons.1 front.apart with ⟨apart, later⟩
  refine ⟨fun other member => front.isNode other (mem_cons_of_mem _ member),
    fun other member upper above upperOpen =>
      .inl (front.above other (mem_cons_of_mem _ member) upper above upperOpen),
    ?_, later, fun other member => front.isFound other (mem_cons_of_mem _ member)⟩
  rintro other member ref (inVisited | ⟨isRef, _, first, isFirst, above⟩) inChain
  · exact front.fresh other (mem_cons_of_mem _ member) ref inVisited inChain
  · rw [mem_singleton.1 isFirst] at above
    rcases isRef.chainOf_total above inChain with higher | lower
    · exact (apart other member).1 higher
    · exact (apart other member).2 lower

end

theorem findSearchNode_searched (levels : Nat) {next : DataSplit} (searched :
    Searched tree isOpen (tree.hits includesSearch search) visited state.searchShow)
    (front : Front tree isOpen (tree.hits includesSearch search) visited parentSearch nodes)
    (hung : ∀ ref, tree.IsNode ref → state.children ref = tree.hungAt isOpen ref)
    (result : tree.findSearchNode includesSearch search levels nodes parentSearch state =
      some next) :
    Searched tree isOpen (tree.hits includesSearch search) (visited ∪ tree.below isOpen nodes)
      next.searchShow ∧ next.children = state.children := by
  have noNodes : tree.below isOpen [] = ∅ := by
    ext ref
    simp [below]
  induction levels generalizing visited state nodes parentSearch next with
  | zero =>
    cases nodes with
    | nil =>
      cases result
      rw [noNodes, Set.union_empty]
      exact ⟨searched, rfl⟩
    | cons node nodes => cases result
  | succ levels induction =>
    rw [show tree.findSearchNode includesSearch search (levels + 1) nodes parentSearch state =
      nodes.foldlM (fun state node =>
        let next := tree.showNode includesSearch search parentSearch state node
        tree.findSearchNode includesSearch search levels
          (next.children node) (next.searchShow node) next)
        state by cases nodes <;> rfl] at result
    induction nodes generalizing visited state with
    | nil =>
      cases result
      rw [noNodes, Set.union_empty]
      exact ⟨searched, rfl⟩
    | cons node nodes beside =>
      rcases front.isNode node mem_cons_self with ⟨isNode, nodeOpen⟩
      rw [foldlM_cons] at result
      rcases Option.bind_eq_some_iff.1 result with ⟨middle, inside, later⟩
      dsimp only at inside
      rw [front.searchShow_eq, if_pos rfl] at inside
      rw [show (tree.showNode includesSearch search parentSearch state node).children node =
        tree.hungAt isOpen node from hung node isNode] at inside
      rcases induction (searched.showNode front)
        (front.children fun ref inVisited => (searched.isNode ref inVisited).1) hung inside with
        ⟨searchedMiddle, sameChildren⟩
      have union : insert node visited ∪ tree.below isOpen (tree.hungAt isOpen node) =
        visited ∪ tree.below isOpen [node] := by
        rw [below_singleton isNode nodeOpen, Set.insert_union, Set.union_insert]
      rw [union] at searchedMiddle
      have hungMiddle : ∀ ref, tree.IsNode ref → middle.children ref = tree.hungAt isOpen ref := by
        rw [sameChildren]
        exact hung
      rcases beside searchedMiddle front.tail hungMiddle later with ⟨searchedNext, children⟩
      have whole : visited ∪ tree.below isOpen [node] ∪ tree.below isOpen nodes =
        visited ∪ tree.below isOpen (node :: nodes) := by
        ext ref
        simp [below, and_or_left, or_assoc]
      rw [whole] at searchedNext
      exact ⟨searchedNext, children.trans sameChildren⟩

def notHidden (state : DataSplit) (ref : Nat) : Bool := state.isStore ref == 0

/-- A node is reached over children from a process that is shown. -/
def Reached (tree : MergedCallTree) (state : DataSplit) (ref : Nat) : Prop :=
  ∃ process ∈ tree.processRefs, isShown state process ∧
    Relation.ReflTransGen (fun parent child => child ∈ state.children parent) process ref

/-- Every hit that is not hidden is reached with what is not hidden above it, and nothing is
reached that has no hit at, above or below it. -/
structure KeepsHits (tree : MergedCallTree) (isHit : Nat → Bool) (state next : DataSplit) :
    Prop where
  hits : ∀ ref, tree.IsNode ref → notHidden state ref → isHit ref →
    ∀ upper ∈ tree.chainOf ref, notHidden state upper → tree.Reached next upper
  others : ∀ ref, tree.IsNode ref → notHidden state ref →
    (∀ upper ∈ tree.chainOf ref, notHidden state upper → ¬ isHit upper) →
    (∀ lower, tree.IsNode lower → ref ∈ tree.chainOf lower → notHidden state lower →
      ¬ isHit lower) →
    ¬ tree.Reached next ref

/-- A node that is not hidden and is above a hit ends a way up, without hidden nodes, from a node
with a hit at it or above it. -/
def HitsConnected (tree : MergedCallTree) (isHit : Nat → Bool) (state : DataSplit) : Prop :=
  ∀ ref, tree.IsNode ref → notHidden state ref →
    (∃ lower, tree.IsNode lower ∧ ref ∈ tree.chainOf lower ∧ notHidden state lower ∧ isHit lower) →
    ∃ lower, tree.IsNode lower ∧ tree.foundAt (notHidden state) isHit lower ∧
      ref ∈ tree.openChain (notHidden state) lower

theorem reached_iff {next : DataSplit}
    (hung : ∀ ref, tree.IsNode ref → next.children ref = tree.hungAt (isShown next) ref)
    (isNode : tree.IsNode ref) : tree.Reached next ref ↔ isShown next ref ∧
      ∃ process ∈ tree.processRefs, process ∈ tree.chainOf ref ∧ isShown next process := by
  constructor
  · rintro ⟨process, isProcess, shown, steps⟩
    have along : isShown next ref ∧ tree.IsNode ref ∧ process ∈ tree.chainOf ref := by
      clear isNode
      induction steps with
      | refl => exact ⟨shown, (chainOf_process isProcess).1, mem_cons_self⟩
      | tail _ last induction =>
        rw [hung _ induction.2.1] at last
        have isChild := (closed_of_hungAt last).1
        exact ⟨(closed_of_hungAt last).2.1, isChild, isChild.mem_chainOf
          (mem_cons_of_mem _ (mem_chainOf_of_hungAt last).1) induction.2.2⟩
    exact ⟨along.1, process, isProcess, along.2.2, shown⟩
  · rintro ⟨shown, process, isProcess, above, processShown⟩
    refine ⟨process, isProcess, processShown,
      Relation.ReflTransGen.mono ?_ _ _ (isNode.hangs shown above processShown)⟩
    intro parent child last
    have inParents := mem_cons_of_mem child (mem_chainOf_of_hungAt last).1
    rw [hung parent ((closed_of_hungAt last).1.exists_below inParents).1]
    exact last

theorem sublist_processRefs :
    tree.processRefs.Sublist (tree.entries.map fun entry => entry.2.ref) := by
  unfold processRefs entries merageEntries
  induction tree.processes with
  | nil => exact .slnil
  | cons process processes induction =>
    cases process with
    | node bean children =>
      rw [preorderAll, preorder, map_append, map_cons, map_cons, cons_append]
      exact (induction.trans (sublist_append_right _ _)).cons_cons _

variable (includesSearch state) in
/-- After a search the nodes shown are those on the chains to the hits. -/
theorem resetAllNode_searched (tree : MergedCallTree)
    (unhidden : ∀ process ∈ tree.processRefs, state.isStore process = 0) (hasText : search ≠ "") :
    ∃ next, tree.resetAllNode includesSearch search state = some next ∧
      (∀ ref, tree.IsNode ref → (isShown next ref ↔ notHidden state ref ∧
        ∃ lower, tree.IsNode lower ∧
          tree.foundAt (notHidden state) (tree.hits includesSearch search) lower ∧
          ref ∈ tree.openChain (notHidden state) lower)) ∧
      ∀ ref, tree.IsNode ref → next.children ref = tree.hungAt (isShown next) ref := by
  rcases tree.resetAllNode_isSome includesSearch search state with ⟨next, result, isStore, _⟩
  refine ⟨next, result, ?_⟩
  unfold resetAllNode at result
  dsimp only at result
  rw [if_neg hasText] at result
  rcases Option.map_eq_some_iff.1 result with ⟨searched, found, rfl⟩
  clear result
  rcases tree.resetNewAllNode_spec (tree.clearSearchNode state) with ⟨sameBase, baseChildren⟩
  rcases tree.resetNewAllNode_spec searched with ⟨same, children⟩
  have cleared : ∀ ref, tree.IsNode ref →
    isShown (tree.clearSearchNode state) ref = notHidden state ref := by
    rintro ref ⟨entry, member, rfl⟩
    exact isShown_clearSearchNode member state
  have open_process : ∀ process ∈ tree.processRefs, notHidden state process := by
    intro process isProcess
    rw [notHidden, unhidden process isProcess]
    rfl
  have chain_process : ∀ process ∈ tree.processRefs, tree.chainOf process = [process] :=
    fun process isProcess => (chainOf_process isProcess).2
  have atFirst : Searched tree (notHidden state) (tree.hits includesSearch search) ∅
    (tree.resetNewAllNode (tree.clearSearchNode state)).searchShow := by
    refine ⟨fun _ member => member.elim, ?_, fun _ member => member.elim⟩
    rintro ref ⟨entry, member, rfl⟩ _
    rw [sameBase.searchShow]
    simpa [isShown, clearSearchNode] using
      isShown_clearSearchNode member { state with isStore := fun _ => 0 }
  have front : Front tree (notHidden state) (tree.hits includesSearch search) ∅ false
    tree.processRefs := by
    refine ⟨fun process isProcess => ⟨(chainOf_process isProcess).1, open_process _ isProcess⟩,
      ?_, fun _ _ _ member => member.elim, ?_, ?_⟩
    · intro process isProcess upper above
      have alone := chain_process process isProcess
      rw [chainOf, cons.injEq] at alone
      rw [alone.2] at above
      cases above
    · refine (tree.distinct.sublist sublist_processRefs).pairwise_of_forall_ne ?_
      intro first isFirst second isSecond distinct
      rw [chain_process first isFirst, chain_process second isSecond, mem_singleton, mem_singleton]
      exact ⟨distinct, distinct.symm⟩
    · intro process isProcess
      rw [foundAt, chain_process process isProcess, any_cons, open_process process isProcess]
      simp
  have hung : ∀ ref, tree.IsNode ref →
    (tree.resetNewAllNode (tree.clearSearchNode state)).children ref =
      tree.hungAt (notHidden state) ref := by
    rintro ref ⟨entry, member, rfl⟩
    rw [baseChildren entry member]
    refine filter_congr ?_
    intro item listed
    have isItem := isNode_of_listed listed
    rw [cleared item isItem, find?_congr fun parent above =>
      cleared parent (isItem.exists_below (mem_cons_of_mem _ above)).1]
  have whole := (findSearchNode_searched tree.height atFirst front hung found).1
  rw [Set.empty_union] at whole
  refine ⟨?_, ?_⟩
  · intro ref isNode
    rw [isShown, same.searchShow, isStore, Bool.and_eq_true]
    refine and_congr_right fun refOpen => ?_
    rw [whole.shown ref ⟨isNode, refOpen, isNode.exists_process⟩]
    constructor
    · rintro ⟨lower, ⟨isLower, _⟩, isFound, inner⟩
      exact ⟨lower, isLower, isFound, inner⟩
    · rintro ⟨lower, isLower, isFound, inner⟩
      exact ⟨lower, ⟨isLower, isOpen_of_mem_openChain inner, isLower.exists_process⟩, isFound,
        inner⟩
  · rintro ref ⟨entry, member, rfl⟩
    rw [children entry member, same.isShown]
    rfl

/-- A search keeps every hit visible just if no hidden node cuts a node off from the hits below
it without a hit at it or above it. -/
theorem resetAllNode_keepsHits_iff (tree : MergedCallTree)
    (includesSearch : String → String → Bool) (searchValue : String) (state : DataSplit)
    (unhidden : ∀ process ∈ tree.processRefs, state.isStore process = 0)
    (hasText : searchValue ≠ "") :
    ∃ next, tree.resetAllNode includesSearch searchValue state = some next ∧
      (KeepsHits tree (tree.hits includesSearch searchValue) state next ↔
        HitsConnected tree (tree.hits includesSearch searchValue) state) := by
  rcases resetAllNode_searched includesSearch state tree unhidden hasText with
    ⟨next, result, shown_iff, hung⟩
  refine ⟨next, result, ?_, ?_⟩
  · rintro keeps ref isNode refOpen ⟨lower, isLower, above, lowerOpen, hit⟩
    have reached := keeps.hits lower isLower lowerOpen hit ref above refOpen
    exact ((shown_iff ref isNode).1 ((reached_iff hung isNode).1 reached).1).2
  · intro connected
    refine ⟨?_, ?_⟩
    · intro ref isNode refOpen hit upper above upperOpen
      have shown : ∀ node ∈ tree.chainOf ref, notHidden state node → isShown next node := by
        intro node inChain nodeOpen
        have isUpper := (isNode.exists_below inChain).1
        exact (shown_iff node isUpper).2
          ⟨nodeOpen, connected node isUpper nodeOpen ⟨ref, isNode, inChain, refOpen, hit⟩⟩
      have isUpper := (isNode.exists_below above).1
      rcases isUpper.exists_process with ⟨process, isProcess, higher⟩
      have processOpen : notHidden state process := by simp [notHidden, unhidden process isProcess]
      exact (reached_iff hung isUpper).2 ⟨shown upper above upperOpen, process, isProcess, higher,
        shown process (isNode.mem_chainOf above higher) processOpen⟩
    · intro ref isNode refOpen noneAbove noneBelow reached
      rcases ((shown_iff ref isNode).1 ((reached_iff hung isNode).1 reached).1).2 with
        ⟨lower, isLower, found, inner⟩
      rcases any_eq_true.1 found with ⟨upper, above, both⟩
      rcases Bool.and_eq_true_iff.1 both with ⟨upperOpen, hit⟩
      rcases isLower.chainOf_total (mem_chainOf_of_openChain inner).1 above with below | higher
      · exact noneBelow upper (isLower.exists_below above).1 below upperOpen hit
      · exact noneAbove upper higher upperOpen hit

/-- The thread of `callsLibrary` is hidden. -/
def threadHidden : DataSplit :=
  { (callsLibrary "libc.so").merged with isStore := fun ref => if ref = 1 then 1 else 0 }

/-- The hit below the hidden thread is lost. -/
theorem not_keepsHits_threadHidden :
    ∃ next, (callsLibrary "libc.so").resetAllNode includes "open" threadHidden = some next ∧
      ¬ KeepsHits (callsLibrary "libc.so") ((callsLibrary "libc.so").hits includes "open")
        threadHidden next := by
  rcases resetAllNode_searched includes threadHidden (callsLibrary "libc.so")
    (by decide) (show "open" ≠ "" by decide) with ⟨next, result, shown_iff, hung⟩
  refine ⟨next, result, ?_⟩
  intro keeps
  have isNode : ∀ ref ∈ [0, 1, 2], (callsLibrary "libc.so").IsNode ref := by
    unfold IsNode
    decide
  have reached := keeps.hits 2 (isNode 2 (by decide)) (by decide) (by decide) 0 (by decide)
    (by decide)
  have shown := ((reached_iff hung (isNode 0 (by decide))).1 reached).1
  rcases ((shown_iff 0 (isNode 0 (by decide))).1 shown).2 with ⟨lower, isLower, found, inner⟩
  rcases isLower with ⟨entry, member, rfl⟩
  revert entry
  decide

theorem resetAllNode_keepsHits_threadHidden : threadHidden.isStore 0 = 0 ∧
    ∃ next, (callsLibrary "libc.so").resetAllNode includes "open" threadHidden = some next ∧
      (KeepsHits (callsLibrary "libc.so") ((callsLibrary "libc.so").hits includes "open")
        threadHidden next ↔
        HitsConnected (callsLibrary "libc.so") ((callsLibrary "libc.so").hits includes "open")
          threadHidden) :=
  ⟨rfl, resetAllNode_keepsHits_iff (callsLibrary "libc.so") includes "open" threadHidden
    (by decide) (by decide)⟩

/-- What a search shows, where the empty text searches for nothing. -/
def ShowsAt (tree : MergedCallTree) (includesSearch : String → String → Bool) (search : String)
    (isOpen : Nat → Bool) (ref : Nat) : Prop :=
  isOpen ref ∧ (search ≠ "" → ∃ lower, tree.IsNode lower ∧
    tree.foundAt isOpen (tree.hits includesSearch search) lower ∧
    ref ∈ tree.openChain isOpen lower)

theorem resetAllNode_showsAt (tree : MergedCallTree) (includesSearch : String → String → Bool)
    (unhidden : ∀ process ∈ tree.processRefs, state.isStore process = 0) (search : String) :
    ∃ next, tree.resetAllNode includesSearch search state = some next ∧ ∀ ref, tree.IsNode ref →
      (isShown next ref ↔ tree.ShowsAt includesSearch search (notHidden state) ref) ∧
        next.children ref = tree.hungAt (isShown next) ref := by
  by_cases hasText : search = ""
  · subst hasText
    refine ⟨_, resetAllNode_empty state, ?_⟩
    rintro ref ⟨entry, member, rfl⟩
    rcases tree.resetNewAllNode_spec (tree.clearSearchNode state) with ⟨kept, children⟩
    rw [children entry member, kept.isShown, isShown_clearSearchNode member]
    exact ⟨(and_iff_left fun hasText => absurd rfl hasText).symm, rfl⟩
  · rcases resetAllNode_searched includesSearch state tree unhidden hasText with
      ⟨next, result, shown, hung⟩
    refine ⟨next, result, fun ref isNode => ⟨?_, hung ref isNode⟩⟩
    rw [shown ref isNode, ShowsAt, imp_iff_right hasText]

/-- Searches leave nothing behind: after any of them, the next one shows what it shows at once. -/
theorem resetAllNode_after_searches (tree : MergedCallTree)
    (includesSearch : String → String → Bool) (state : DataSplit)
    (unhidden : ∀ process ∈ tree.processRefs, state.isStore process = 0)
    (searches : List String) (searchValue : String) :
    ∃ middle next direct,
      searches.foldlM (fun state search => tree.resetAllNode includesSearch search state) state =
        some middle ∧
      tree.resetAllNode includesSearch searchValue middle = some next ∧
      tree.resetAllNode includesSearch searchValue state = some direct ∧
      ∀ ref, tree.IsNode ref → isShown next ref = isShown direct ref ∧
        next.children ref = direct.children ref := by
  have reached : ∃ middle, searches.foldlM
      (fun state search => tree.resetAllNode includesSearch search state) state = some middle ∧
      middle.isStore = state.isStore := by
    clear unhidden
    induction searches generalizing state with
    | nil => exact ⟨state, rfl, rfl⟩
    | cons search searches induction =>
      rcases tree.resetAllNode_isSome includesSearch search state with ⟨first, result, kept, _⟩
      rcases induction first with ⟨middle, rest, same⟩
      rw [foldlM_cons, result]
      exact ⟨middle, rest, same.trans kept⟩
  rcases reached with ⟨middle, run, same⟩
  rcases tree.resetAllNode_showsAt includesSearch unhidden searchValue with
    ⟨direct, isDirect, atOnce⟩
  rcases tree.resetAllNode_showsAt includesSearch (same ▸ unhidden) searchValue with
    ⟨next, isNext, after⟩
  have isOpen : notHidden middle = notHidden state := by
    unfold notHidden
    rw [same]
  rw [isOpen] at after
  have shown : ∀ ref, tree.IsNode ref → isShown next ref = isShown direct ref :=
    fun ref isNode => Bool.eq_iff_iff.2 ((after ref isNode).1.trans (atOnce ref isNode).1.symm)
  refine ⟨middle, next, direct, run, isNext, isDirect, fun ref isNode => ⟨shown ref isNode, ?_⟩⟩
  rw [(after ref isNode).2, (atOnce ref isNode).2]
  refine filter_congr fun item listed => ?_
  have isItem := isNode_of_listed listed
  rw [shown item isItem, find?_congr fun upper above =>
    shown upper (isItem.exists_below (mem_cons_of_mem _ above)).1]

theorem resetAllNode_after_searches_threadHidden : ∃ middle next direct,
    ["open", "", "main"].foldlM
      (fun state search => (callsLibrary "libc.so").resetAllNode includes search state)
      threadHidden = some middle ∧
    (callsLibrary "libc.so").resetAllNode includes "" middle = some next ∧
    (callsLibrary "libc.so").resetAllNode includes "" threadHidden = some direct ∧
    ∀ ref, (callsLibrary "libc.so").IsNode ref → isShown next ref = isShown direct ref ∧
      next.children ref = direct.children ref :=
  resetAllNode_after_searches (callsLibrary "libc.so") includes threadHidden (by decide) _ _

end MergedCallTree

end SysAnalyzer.LogicWorker
