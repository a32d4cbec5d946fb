import SysAnalyzer.Foundation.Spreading
import SysAnalyzer.JsHeap.HeapSnapshot

/-!
# States of DOM nodes

`distributeDOMState` puts the native nodes with a known state on two stacks and
lets first `ATTACHED` and then `DETACHED` spread to native nodes without a state.
Nodes of other types are only marked as visited.

The two loops are one loop with its state as a parameter.  What a round does is
said once, by `Assigns`, for whatever order the edges are in.
-/

namespace SysAnalyzer.JsHeap

open Foundation List Function

inductive DetachedNessState where
  | unknown
  | attached
  | detached
  deriving DecidableEq

def detachedDomNode : Nat := 2

/--
`DOMState`, and the fields of the nodes that are written, by the ids of the
nodes.  The top of a stack is in front.
-/
structure DOMState where
  visited : Nat → Bool
  attached : List Nat
  detached : List Nat
  detachedness : Nat → DetachedNessState
  displayName : Nat → String
  flag : Nat → Nat

namespace DOMState

/-- Before the first node, with the states that the nodes have. -/
def initial (detachedness : Nat → DetachedNessState) : DOMState where
  visited := fun _ => false
  attached := []
  detached := []
  detachedness := detachedness
  displayName := fun _ => ""
  flag := fun _ => 0

def visit (domState : DOMState) (id : Nat) : DOMState :=
  { domState with visited := Function.update domState.visited id true }

def label (domState : DOMState) (id : Nat) (newState : DetachedNessState) :
    DOMState :=
  { domState with
    detachedness := Function.update domState.detachedness id newState }

def processNode (domState : DOMState) (node : HeapNode) (newState : DetachedNessState) : DOMState :=
  if domState.visited node.id = true then domState
  else if node.type ≠ .native then domState.visit node.id
  else
    let labelled := domState.label node.id newState
    match newState with
    | .unknown => labelled.visit node.id
    | .attached => { labelled with attached := node.id :: labelled.attached }.visit node.id
    | .detached =>
      { labelled with
        displayName :=
          Function.update labelled.displayName node.id
            ("Detached " ++ node.name)
        flag :=
          Function.update labelled.flag node.id
            (labelled.flag node.id ||| detachedDomNode)
        detached := node.id :: labelled.detached }.visit node.id

def stack (domState : DOMState) : DetachedNessState → List Nat
  | .unknown => []
  | .attached => domState.attached
  | .detached => domState.detached

/-- What stays on the stack for a state when its top is taken. -/
def withStack (domState : DOMState) (rest : List Nat) : DetachedNessState → DOMState
  | .unknown => domState
  | .attached => { domState with attached := rest }
  | .detached => { domState with detached := rest }

def processKnown (domState : DOMState) (node : HeapNode) : DOMState :=
  if domState.detachedness node.id = .unknown then domState
  else domState.processNode node (domState.detachedness node.id)

end DOMState

/-- The edges that `iterateFilteredChildren` leaves out. -/
def HeapEdge.isFiltered (edge : HeapEdge) : Bool :=
  edge.type == .hidden || edge.type == .weak || edge.type == .invisible

namespace HeapSnapshot

section Loops

variable (snapshot : HeapSnapshot)

/-- An edge in `iterateFilteredChildren`. -/
def processChild (newState : DetachedNessState) (domState : DOMState)
    (edge : HeapEdge) : DOMState :=
  if edge.isFiltered = true then domState
  else
    match snapshot.get edge.toNodeId with
    | none => domState
    | some childNode => domState.processNode childNode newState

def iterateFilteredChildren (domState : DOMState) (node : HeapNode)
    (newState : DetachedNessState) : DOMState :=
  node.edges.foldl (snapshot.processChild newState) domState

/-- The node that was taken from the stack of the second or third loop. -/
def propagateFrom (newState : DetachedNessState) (domState : DOMState) (nodeId : Nat) : DOMState :=
  match snapshot.get nodeId with
  | none => domState
  | some node =>
    -- only the third loop looks at the state of the node
    if newState = .detached ∧ domState.detachedness node.id = .attached then domState
    else snapshot.iterateFilteredChildren domState node newState

/-- The second and the third loop, with a bound on the rounds. -/
def propagate (newState : DetachedNessState) : (rounds : Nat) → DOMState → DOMState
  | 0, domState => domState
  | rounds + 1, domState =>
    match domState.stack newState with
    | [] => domState
    | nodeId :: rest =>
      propagate newState rounds
        (snapshot.propagateFrom newState (domState.withStack rest newState)
          nodeId)

/-- The first loop. -/
def processKnownNodes (domState : DOMState) : DOMState :=
  snapshot.nodes.foldl DOMState.processKnown domState

def distributeDOMState (detachedness : Nat → DetachedNessState) : DOMState :=
  let known := snapshot.processKnownNodes (.initial detachedness)
  let attached := snapshot.propagate .attached snapshot.nodeCount known
  snapshot.propagate .detached snapshot.nodeCount attached

end Loops

section Graph

variable (snapshot : HeapSnapshot)

/-- A node of type `NATIVE`. -/
def IsNative (id : Nat) : Prop := ∃ node, snapshot.get id = some node ∧ node.type = .native

/-- A node has an edge that is not left out to another. -/
def LeadsTo (id following : Nat) : Prop :=
  ∃ node, snapshot.get id = some node ∧
    ∃ edge ∈ node.edges, edge.isFiltered = false ∧ edge.toNodeId = following

def nativeWith (detachedness : Nat → DetachedNessState) (state : DetachedNessState) : Set Nat :=
  { id | snapshot.IsNative id ∧ detachedness id = state }

/-- An edge to a native node without a state. -/
def LeadsToUnknown (detachedness : Nat → DetachedNessState) (id following : Nat) : Prop :=
  snapshot.LeadsTo id following ∧
    following ∈ snapshot.nativeWith detachedness .unknown

/-- The number of native nodes without a state. -/
def countUnknown (detachedness : Nat → DetachedNessState) : Nat :=
  snapshot.nodes.countP fun node => node.type == .native && detachedness node.id == .unknown

end Graph

variable {snapshot : HeapSnapshot}

theorem isNative_id_iff {node : HeapNode} (member : node ∈ snapshot.nodes) :
    snapshot.IsNative node.id ↔ node.type = .native := by
  simp [IsNative, get_id member]

theorem exists_of_isNative {id : Nat} (native : snapshot.IsNative id) :
    ∃ node ∈ snapshot.nodes, node.id = id ∧ node.type = .native := by
  rcases native with ⟨node, found, isNative⟩
  exact ⟨node, mem_of_get found, id_of_get found, isNative⟩

/-! ## What a round does -/

/-- The native nodes that are visited are those with a state. -/
def Known (snapshot : HeapSnapshot) (domState : DOMState) : Prop :=
  ∀ id, snapshot.IsNative id →
    (domState.visited id = true ↔ domState.detachedness id ≠ .unknown)

/--
From one state to another, the targets without a state get it and are put on the
stack for it.
-/
structure Assigns (snapshot : HeapSnapshot) (newState : DetachedNessState)
    (targets : Set Nat) (before after : DOMState) : Prop where
  assigned : ∀ id ∈ targets, before.detachedness id = .unknown →
    after.detachedness id = newState
  kept : ∀ id, (id ∈ targets → before.detachedness id ≠ .unknown) →
    after.detachedness id = before.detachedness id
  stacked : ∀ id, id ∈ after.stack newState ↔ id ∈ before.stack newState ∨
    (id ∈ targets ∧ before.detachedness id = .unknown)
  others : ∀ state, state ≠ newState → after.stack state = before.stack state
  known : snapshot.Known after
  rounds :
    (after.stack newState).length + snapshot.countUnknown after.detachedness ≤
      (before.stack newState).length + snapshot.countUnknown before.detachedness
  fewer : snapshot.countUnknown after.detachedness ≤
    snapshot.countUnknown before.detachedness

namespace Assigns

variable {newState : DetachedNessState} {targets : Set Nat}

theorem refl {domState : DOMState} (known : snapshot.Known domState)
    (nothing : ∀ id ∈ targets, domState.detachedness id ≠ .unknown) :
    Assigns snapshot newState targets domState domState where
  assigned := by
    intro id member isUnknown
    exact absurd isUnknown (nothing id member)
  kept := by
    intro id _
    rfl
  stacked := by
    intro id
    constructor
    · exact .inl
    · rintro (before | ⟨member, isUnknown⟩)
      · exact before
      · exact absurd isUnknown (nothing id member)
  others := by
    intro state _
    rfl
  known := known
  rounds := le_refl _
  fewer := le_refl _

theorem trans {others : Set Nat} {before between after : DOMState} (isState : newState ≠ .unknown)
    (first : Assigns snapshot newState targets before between)
    (second : Assigns snapshot newState others between after) :
    Assigns snapshot newState (targets ∪ others) before after := by
  have isKept : ∀ {id}, id ∉ targets ∨ before.detachedness id ≠ .unknown →
    between.detachedness id = before.detachedness id := by
    intro id either
    apply first.kept
    intro member
    rcases either with absent | isSet
    · exact absurd member absent
    · exact isSet
  have between_unknown_iff : ∀ id, between.detachedness id = .unknown ↔
    id ∉ targets ∧ before.detachedness id = .unknown := by
    intro id
    constructor
    · intro isUnknown
      by_cases either : id ∈ targets ∧ before.detachedness id = .unknown
      · rw [first.assigned id either.1 either.2] at isUnknown
        exact absurd isUnknown isState
      · rw [isKept (not_and_or.1 either)] at isUnknown
        exact ⟨fun member => either ⟨member, isUnknown⟩, isUnknown⟩
    · rintro ⟨absent, isUnknown⟩
      rw [isKept (.inl absent), isUnknown]
  constructor
  case assigned =>
    intro id member isUnknown
    by_cases inFirst : id ∈ targets
    · have isSet := first.assigned id inFirst isUnknown
      rw [← isSet]
      apply second.kept
      intro _
      rw [isSet]
      exact isState
    · apply second.assigned id (member.resolve_left inFirst)
      exact (between_unknown_iff id).2 ⟨inFirst, isUnknown⟩
  case kept =>
    intro id isSet
    have beforeKept := first.kept id fun member => isSet (.inl member)
    rw [← beforeKept]
    apply second.kept
    intro member
    rw [beforeKept]
    exact isSet (.inr member)
  case stacked =>
    intro id
    rw [second.stacked, first.stacked, between_unknown_iff]
    simp only [Set.mem_union]
    tauto
  case others =>
    intro state other
    rw [second.others state other, first.others state other]
  case known => exact second.known
  case rounds => exact second.rounds.trans first.rounds
  case fewer => exact second.fewer.trans first.fewer

end Assigns

end HeapSnapshot

namespace DOMState

variable {domState : DOMState} {node : HeapNode}
  {newState : DetachedNessState}

theorem processNode_of_visited (visited : domState.visited node.id = true) :
    domState.processNode node newState = domState := by
  rw [processNode, if_pos visited]

theorem processNode_of_ne (other : node.type ≠ .native) :
    domState.processNode node newState = domState ∨
      domState.processNode node newState = domState.visit node.id := by
  by_cases visited : domState.visited node.id = true
  · exact .inl (processNode_of_visited visited)
  · right
    rw [processNode, if_neg visited, if_pos other]

section Native

variable (native : node.type = .native)
  (fresh : ¬ domState.visited node.id = true)

include native fresh

theorem processNode_visited : (domState.processNode node newState).visited =
    Function.update domState.visited node.id true := by
  cases newState <;> simp [processNode, fresh, native, visit, label]

theorem processNode_detachedness : (domState.processNode node newState).detachedness =
    Function.update domState.detachedness node.id newState := by
  cases newState <;> simp [processNode, fresh, native, visit, label]

theorem processNode_stack (isState : newState ≠ .unknown) :
    (domState.processNode node newState).stack newState = node.id :: domState.stack newState := by
  cases newState with
  | unknown => exact absurd rfl isState
  | attached => simp [processNode, fresh, native, visit, label, stack]
  | detached => simp [processNode, fresh, native, visit, label, stack]

theorem processNode_otherStack {state : DetachedNessState} (other : state ≠ newState) :
    (domState.processNode node newState).stack state = domState.stack state := by
  cases newState <;> cases state <;> simp_all [processNode, visit, label, stack]

end Native

end DOMState

namespace HeapSnapshot

variable {snapshot : HeapSnapshot}

theorem visit_assigns {newState : DetachedNessState} {domState : DOMState}
    {id : Nat} (known : snapshot.Known domState) (other : ¬ snapshot.IsNative id) :
    Assigns snapshot newState ∅ domState (domState.visit id) where
  assigned := by
    intro following member
    exact absurd member (Set.notMem_empty following)
  kept := by
    intro _ _
    rfl
  stacked := by
    intro following
    cases newState <;> simp [DOMState.visit, DOMState.stack]
  others := by
    intro state _
    cases state <;> rfl
  known := by
    intro following native
    have apart : following ≠ id := by
      rintro rfl
      exact other native
    simp only [DOMState.visit, update_of_ne apart]
    exact known following native
  rounds := by cases newState <;> exact le_refl _
  fewer := le_refl _

theorem processNode_assigns_native {newState : DetachedNessState}
    {domState : DOMState} {node : HeapNode}
    (isState : newState ≠ .unknown) (known : snapshot.Known domState)
    (member : node ∈ snapshot.nodes) (native : node.type = .native)
    (fresh : ¬ domState.visited node.id = true) : Assigns snapshot newState {node.id} domState
      (domState.processNode node newState) := by
  have detachedness : (domState.processNode node newState).detachedness =
    Function.update domState.detachedness node.id newState :=
    DOMState.processNode_detachedness native fresh
  have isUnknown : domState.detachedness node.id = .unknown := by
    by_contra isSet
    exact fresh ((known node.id ((isNative_id_iff member).2 native)).2 isSet)
  have fewer :
    snapshot.countUnknown (domState.processNode node newState).detachedness <
      snapshot.countUnknown domState.detachedness := by
    rw [detachedness]
    apply countP_lt _ member
    · simp [native, isUnknown]
    · simp [isState]
    · intro other _ counted
      by_cases same : other.id = node.id
      · simp [same, isState] at counted
      · simpa [same] using counted
  constructor
  case assigned =>
    intro id same _
    rw [detachedness, Set.mem_singleton_iff.1 same, update_self]
  case kept =>
    intro id isSet
    have apart : id ≠ node.id := by
      rintro rfl
      exact isSet rfl isUnknown
    rw [detachedness, update_of_ne apart]
  case stacked =>
    intro id
    rw [DOMState.processNode_stack native fresh isState, mem_cons]
    constructor
    · rintro (rfl | before)
      · exact .inr ⟨rfl, isUnknown⟩
      · exact .inl before
    · rintro (before | ⟨same, _⟩)
      · exact .inr before
      · exact .inl same
  case others =>
    intro state other
    exact DOMState.processNode_otherStack native fresh other
  case known =>
    intro id isNative
    rw [DOMState.processNode_visited native fresh, detachedness]
    by_cases same : id = node.id
    · simp [same, isState]
    · rw [update_of_ne same, update_of_ne same]
      exact known id isNative
  case rounds =>
    rw [DOMState.processNode_stack native fresh isState, length_cons]
    omega
  case fewer => exact le_of_lt fewer

theorem processNode_assigns {newState : DetachedNessState} {domState : DOMState} {node : HeapNode}
    (isState : newState ≠ .unknown) (known : snapshot.Known domState)
    (member : node ∈ snapshot.nodes) :
    Assigns snapshot newState { id | id = node.id ∧ snapshot.IsNative id }
      domState (domState.processNode node newState) := by
  by_cases native : node.type = .native
  · have isNative := (isNative_id_iff member).2 native
    by_cases visited : domState.visited node.id = true
    · rw [DOMState.processNode_of_visited visited]
      apply Assigns.refl known
      rintro id ⟨rfl, _⟩
      exact (known node.id isNative).1 visited
    · have target :
        { id | id = node.id ∧ snapshot.IsNative id } = {node.id} := by
        ext id
        constructor
        · exact And.left
        · rintro rfl
          exact ⟨rfl, isNative⟩
      rw [target]
      exact processNode_assigns_native isState known member native visited
  · have notNative : ¬ snapshot.IsNative node.id := fun isNative =>
      native ((isNative_id_iff member).1 isNative)
    have target :
      { id | id = node.id ∧ snapshot.IsNative id } = (∅ : Set Nat) := by
      ext id
      constructor
      · rintro ⟨rfl, isNative⟩
        exact notNative isNative
      · exact False.elim
    rw [target]
    have either : domState.processNode node newState = domState ∨
      domState.processNode node newState = domState.visit node.id :=
      DOMState.processNode_of_ne native
    rcases either with same | visited
    · rw [same]
      exact Assigns.refl known fun id absent => absurd absent (Set.notMem_empty id)
    · rw [visited]
      exact visit_assigns known notNative

/-- The native nodes that some edges lead to. -/
def targetsOf (snapshot : HeapSnapshot) (edges : List HeapEdge) : Set Nat :=
  { id | snapshot.IsNative id ∧
    ∃ edge ∈ edges, edge.isFiltered = false ∧ edge.toNodeId = id }

section

variable {newState : DetachedNessState} (isState : newState ≠ .unknown)
include isState

theorem processChild_assigns {domState : DOMState}
    (known : snapshot.Known domState) (edge : HeapEdge) :
    Assigns snapshot newState (snapshot.targetsOf [edge]) domState
      (snapshot.processChild newState domState edge) := by
  rw [processChild]
  by_cases filtered : edge.isFiltered = true
  · rw [if_pos filtered]
    apply Assigns.refl known
    rintro id ⟨_, other, same, isFollowed, _⟩
    rw [mem_singleton.1 same, filtered] at isFollowed
    cases isFollowed
  · rw [if_neg filtered]
    have isFollowed : edge.isFiltered = false := Bool.not_eq_true _ ▸ filtered
    cases found : snapshot.get edge.toNodeId with
    | none =>
      apply Assigns.refl known
      rintro id ⟨⟨node, isNode, _⟩, other, same, _, rfl⟩
      rw [mem_singleton.1 same, found] at isNode
      cases isNode
    | some childNode =>
      have target : snapshot.targetsOf [edge] =
        { id | id = childNode.id ∧ snapshot.IsNative id } := by
        ext id
        constructor
        · rintro ⟨native, other, same, _, rfl⟩
          rw [mem_singleton.1 same] at native ⊢
          exact ⟨(id_of_get found).symm, native⟩
        · rintro ⟨rfl, native⟩
          exact ⟨native, edge, mem_singleton_self edge, isFollowed,
            (id_of_get found).symm⟩
      rw [target]
      exact processNode_assigns isState known (mem_of_get found)

theorem processChildren_assigns (edges : List HeapEdge) :
    ∀ {domState : DOMState}, snapshot.Known domState →
      Assigns snapshot newState (snapshot.targetsOf edges) domState
        (edges.foldl (snapshot.processChild newState) domState) := by
  induction edges with
  | nil =>
    intro domState known
    apply Assigns.refl known
    rintro id ⟨_, edge, absent, _⟩
    exact absurd absent not_mem_nil
  | cons edge edges ih =>
    intro domState known
    have first := processChild_assigns isState known edge
    have targets : snapshot.targetsOf (edge :: edges) =
      snapshot.targetsOf [edge] ∪ snapshot.targetsOf edges := by
      ext id
      simp [targetsOf, and_or_left]
    rw [targets]
    exact first.trans isState (ih first.known)

theorem propagateFrom_assigns {domState : DOMState} {nodeId : Nat} (known : snapshot.Known domState)
    (taken : domState.detachedness nodeId = newState) : Assigns snapshot newState
      { id | snapshot.LeadsTo nodeId id ∧ snapshot.IsNative id } domState
      (snapshot.propagateFrom newState domState nodeId) := by
  rw [propagateFrom]
  cases found : snapshot.get nodeId with
  | none =>
    apply Assigns.refl known
    rintro id ⟨⟨node, isNode, _⟩, _⟩
    rw [found] at isNode
    cases isNode
  | some node =>
    have goesOn : ¬ (newState = .detached ∧
      domState.detachedness node.id = .attached) := by
      rintro ⟨isDetached, isAttached⟩
      rw [id_of_get found, taken, isDetached] at isAttached
      cases isAttached
    dsimp only
    rw [if_neg goesOn, iterateFilteredChildren]
    have targets : { id | snapshot.LeadsTo nodeId id ∧ snapshot.IsNative id } =
      snapshot.targetsOf node.edges := by
      ext id
      simp [LeadsTo, targetsOf, found, and_comm]
    rw [targets]
    exact processChildren_assigns isState node.edges known

end

/-- What holds between the rounds of a loop, with what held before the first. -/
structure Propagating (snapshot : HeapSnapshot) (newState : DetachedNessState)
    (start domState : DOMState) : Prop where
  spreading : Spreading (snapshot.LeadsToUnknown start.detachedness)
    (snapshot.nativeWith start.detachedness newState)
    (snapshot.nativeWith domState.detachedness newState)
    (domState.stack newState)
  known : snapshot.Known domState
  states : ∀ id, domState.detachedness id = start.detachedness id ∨
    (id ∈ snapshot.nativeWith start.detachedness .unknown ∧
      domState.detachedness id = newState)
  others : ∀ state, state ≠ newState → domState.stack state = start.stack state
  fewer : snapshot.countUnknown domState.detachedness ≤
    snapshot.countUnknown start.detachedness

section Rounds

variable {newState : DetachedNessState} {start domState : DOMState}

@[simp]
theorem withStack_detachedness (domState : DOMState) (rest : List Nat)
    (newState : DetachedNessState) : (domState.withStack rest newState).detachedness =
      domState.detachedness := by
  cases newState <;> rfl

@[simp]
theorem withStack_visited (domState : DOMState) (rest : List Nat) (newState : DetachedNessState) :
    (domState.withStack rest newState).visited = domState.visited := by
  cases newState <;> rfl

theorem withStack_stack (domState : DOMState) (rest : List Nat) (isState : newState ≠ .unknown) :
    (domState.withStack rest newState).stack newState = rest := by
  cases newState with
  | unknown => exact absurd rfl isState
  | attached => rfl
  | detached => rfl

theorem withStack_otherStack (domState : DOMState) (rest : List Nat)
    {state : DetachedNessState} (other : state ≠ newState) :
    (domState.withStack rest newState).stack state = domState.stack state := by
  cases newState <;> cases state <;> first | rfl | exact absurd rfl other

/-- With the next node, stack and unknown nodes get no more together. -/
theorem Propagating.next (isState : newState ≠ .unknown) {nodeId : Nat}
    {rest : List Nat} (propagating : Propagating snapshot newState start domState)
    (taken : domState.stack newState = nodeId :: rest) :
    let after := snapshot.propagateFrom newState (domState.withStack rest newState) nodeId
    Propagating snapshot newState start after ∧
      (after.stack newState).length + snapshot.countUnknown after.detachedness ≤
        rest.length + snapshot.countUnknown domState.detachedness := by
  intro after
  have spreading := propagating.spreading
  rw [taken] at spreading
  have isNewState : domState.detachedness nodeId = newState :=
    (spreading.pending nodeId mem_cons_self).2
  have known : snapshot.Known (domState.withStack rest newState) := by
    intro id native
    rw [withStack_visited, withStack_detachedness]
    exact propagating.known id native
  have stillNewState :
    (domState.withStack rest newState).detachedness nodeId = newState := by
    rw [withStack_detachedness]
    exact isNewState
  have assigns := propagateFrom_assigns isState known stillNewState
  have assigned := assigns.assigned
  have kept := assigns.kept
  have stacked := assigns.stacked
  have rounds := assigns.rounds
  have fewer := assigns.fewer
  rw [withStack_detachedness] at assigned kept stacked rounds fewer
  rw [withStack_stack domState rest isState] at stacked rounds
  -- among the native nodes, those without a state had none before the loop
  have unknown_iff : ∀ id, id ∈ snapshot.nativeWith domState.detachedness .unknown ↔
    id ∈ snapshot.nativeWith start.detachedness .unknown ∧
      id ∉ snapshot.nativeWith domState.detachedness newState := by
    intro id
    constructor
    · rintro ⟨native, isUnknown⟩
      have apart : domState.detachedness id ≠ newState := by
        rw [isUnknown]
        exact isState.symm
      rcases propagating.states id with same | ⟨_, isSet⟩
      · rw [same] at isUnknown
        exact ⟨⟨native, isUnknown⟩, fun either => apart either.2⟩
      · exact absurd isSet apart
    · rintro ⟨⟨native, isUnknown⟩, notNew⟩
      rcases propagating.states id with same | ⟨_, isSet⟩
      · exact ⟨native, same.trans isUnknown⟩
      · exact absurd ⟨native, isSet⟩ notNew
  have states : ∀ id, after.detachedness id = domState.detachedness id ∨
    (id ∈ snapshot.nativeWith domState.detachedness .unknown ∧
      snapshot.LeadsTo nodeId id ∧ after.detachedness id = newState) := by
    intro id
    by_cases target : (snapshot.LeadsTo nodeId id ∧ snapshot.IsNative id) ∧
      domState.detachedness id = .unknown
    · rcases target with ⟨⟨leads, native⟩, isUnknown⟩
      exact .inr
        ⟨⟨native, isUnknown⟩, leads, assigned id ⟨leads, native⟩ isUnknown⟩
    · left
      apply kept
      intro member isUnknown
      exact target ⟨member, isUnknown⟩
  constructor
  · constructor
    case spreading =>
      apply spreading.round
      · intro id
        constructor
        · rintro ⟨native, isSet⟩
          rcases states id with same | ⟨isUnknown, leads, _⟩
          · exact .inl ⟨native, same.symm.trans isSet⟩
          · exact .inr ⟨leads, ((unknown_iff id).1 isUnknown).1⟩
        · rintro (⟨native, isSet⟩ | ⟨leads, isUnknown⟩)
          · rcases states id with same | ⟨_, _, isSet⟩
            · exact ⟨native, same.trans isSet⟩
            · exact ⟨native, isSet⟩
          · by_cases already :
              id ∈ snapshot.nativeWith domState.detachedness newState
            · rcases states id with same | ⟨_, _, isSet⟩
              · exact ⟨already.1, same.trans already.2⟩
              · exact ⟨already.1, isSet⟩
            · have stillUnknown := (unknown_iff id).2 ⟨isUnknown, already⟩
              exact ⟨isUnknown.1,
                assigned id ⟨leads, isUnknown.1⟩ stillUnknown.2⟩
      · intro id
        rw [stacked id]
        apply or_congr_right
        constructor
        · rintro ⟨⟨leads, native⟩, isUnknown⟩
          have before := (unknown_iff id).1 ⟨native, isUnknown⟩
          exact ⟨⟨leads, before.1⟩, before.2⟩
        · rintro ⟨⟨leads, isUnknown⟩, notNew⟩
          have after := (unknown_iff id).2 ⟨isUnknown, notNew⟩
          exact ⟨⟨leads, after.1⟩, after.2⟩
    case known => exact assigns.known
    case states =>
      intro id
      rcases states id with same | ⟨isUnknown, _, isSet⟩
      · rw [same]
        exact propagating.states id
      · exact .inr ⟨((unknown_iff id).1 isUnknown).1, isSet⟩
    case others =>
      intro state other
      rw [assigns.others state other, withStack_otherStack domState rest other]
      exact propagating.others state other
    case fewer => exact fewer.trans propagating.fewer
  · exact rounds

theorem Propagating.run (isState : newState ≠ .unknown) (rounds : Nat) :
    ∀ {domState : DOMState}, Propagating snapshot newState start domState →
      (domState.stack newState).length + snapshot.countUnknown domState.detachedness ≤ rounds →
      Propagating snapshot newState start (snapshot.propagate newState rounds domState) ∧
        (snapshot.propagate newState rounds domState).stack newState = [] := by
  induction rounds with
  | zero =>
    intro domState propagating bound
    have empty : domState.stack newState = [] := length_eq_zero_iff.1 (by omega)
    exact ⟨propagating, empty⟩
  | succ rounds ih =>
    intro domState propagating bound
    rw [propagate]
    cases taken : domState.stack newState with
    | nil => exact ⟨propagating, taken⟩
    | cons nodeId rest =>
      have next := propagating.next isState taken
      apply ih next.1
      have used := next.2
      rw [taken, length_cons] at bound
      omega

theorem propagate_spec (isState : newState ≠ .unknown)
    (known : snapshot.Known start) (stacked : ∀ id, id ∈ start.stack newState ↔
      id ∈ snapshot.nativeWith start.detachedness newState) (rounds : Nat)
    (enough : (start.stack newState).length + snapshot.countUnknown start.detachedness ≤ rounds) :
    Propagating snapshot newState start (snapshot.propagate newState rounds start) ∧
      (snapshot.propagate newState rounds start).stack newState = [] := by
  apply Propagating.run isState rounds _ enough
  constructor
  case spreading => exact Spreading.start stacked
  case known => exact known
  case states =>
    intro id
    exact .inl rfl
  case others =>
    intro state _
    rfl
  case fewer => exact le_refl _

theorem Propagating.detachedness_iff (propagating : Propagating snapshot newState start domState)
    (empty : domState.stack newState = []) {id : Nat} (native : snapshot.IsNative id) :
    domState.detachedness id = newState ↔ ReachedFrom (snapshot.LeadsToUnknown start.detachedness)
      (snapshot.nativeWith start.detachedness newState) id := by
  have spreading := propagating.spreading
  rw [empty] at spreading
  rw [← spreading.mem_iff id]
  constructor
  · intro isSet
    exact ⟨native, isSet⟩
  · exact And.right

end Rounds

end HeapSnapshot

end SysAnalyzer.JsHeap
