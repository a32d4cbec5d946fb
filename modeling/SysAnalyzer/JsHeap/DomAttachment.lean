import SysAnalyzer.JsHeap.DomState

/-!
# Attached and detached DOM nodes

The first loop of `distributeDOMState` puts the native nodes with a state on the
stacks.  So the second starts at those that are attached and the third at those
that are detached, and a native node without a state gets one where it is reached.
What is reached does not depend on the order of the nodes or of their edges.
-/

namespace SysAnalyzer.JsHeap

open Foundation List

namespace HeapSnapshot

variable {snapshot : HeapSnapshot}

def stackedNodes (detachedness : Nat → DetachedNessState)
    (state : DetachedNessState) (nodes : List HeapNode) : List Nat :=
  ((nodes.filter fun node =>
    node.type == .native && detachedness node.id == state).map HeapNode.id).reverse

/-- What the first loop has done after some nodes. -/
structure Entered (detachedness : Nat → DetachedNessState)
    (nodes : List HeapNode) (domState : DOMState) : Prop where
  unchanged : domState.detachedness = detachedness
  visited : ∀ id, domState.visited id = true ↔
    id ∈ nodes.map HeapNode.id ∧ detachedness id ≠ .unknown
  stacked : ∀ state, state ≠ .unknown → domState.stack state = stackedNodes detachedness state nodes

theorem stackedNodes_concat (detachedness : Nat → DetachedNessState)
    (state : DetachedNessState) (nodes : List HeapNode) (node : HeapNode) :
    stackedNodes detachedness state (nodes ++ [node]) =
      if node.type = .native ∧ detachedness node.id = state then
        node.id :: stackedNodes detachedness state nodes else
        stackedNodes detachedness state nodes := by
  by_cases counted : node.type = .native ∧ detachedness node.id = state
  · rw [if_pos counted]
    simp [stackedNodes, filter_append, counted.1, counted.2]
  · rw [if_neg counted]
    simp [stackedNodes, filter_append, counted]

/-- The first loop enters the next node. -/
theorem Entered.next {detachedness : Nat → DetachedNessState}
    {nodes : List HeapNode} {node : HeapNode} {domState : DOMState}
    (entered : Entered detachedness nodes domState) (fresh : node.id ∉ nodes.map HeapNode.id) :
    Entered detachedness (nodes ++ [node]) (domState.processKnown node) := by
  have notVisited : ¬ domState.visited node.id = true := fun visited =>
    fresh ((entered.visited node.id).1 visited).1
  have member_iff : ∀ id, id ∈ (nodes ++ [node]).map HeapNode.id ↔
    id ∈ nodes.map HeapNode.id ∨ id = node.id := by
    intro id
    simp
  rw [DOMState.processKnown, entered.unchanged]
  by_cases isUnknown : detachedness node.id = .unknown
  · rw [if_pos isUnknown]
    constructor
    case unchanged => exact entered.unchanged
    case visited =>
      intro id
      rw [entered.visited id, member_iff]
      constructor
      · rintro ⟨member, isSet⟩
        exact ⟨.inl member, isSet⟩
      · rintro ⟨member | rfl, isSet⟩
        · exact ⟨member, isSet⟩
        · exact absurd isUnknown isSet
    case stacked =>
      intro state isState
      rw [stackedNodes_concat, if_neg]
      · exact entered.stacked state isState
      · rintro ⟨_, same⟩
        exact isState (same.symm.trans isUnknown)
  · rw [if_neg isUnknown]
    have visited : (domState.processNode node (detachedness node.id)).visited =
      Function.update domState.visited node.id true := by
      by_cases native : node.type = .native
      · exact DOMState.processNode_visited native notVisited
      · rw [DOMState.processNode, if_neg notVisited, if_pos native]
        rfl
    constructor
    case unchanged =>
      by_cases native : node.type = .native
      · rw [DOMState.processNode_detachedness native notVisited,
          entered.unchanged, Function.update_eq_self]
      · rw [DOMState.processNode, if_neg notVisited, if_pos native]
        exact entered.unchanged
    case visited =>
      intro id
      rw [visited, member_iff]
      by_cases same : id = node.id
      · simp [same, isUnknown]
      · rw [Function.update_of_ne same, entered.visited id]
        simp [same]
    case stacked =>
      intro state isState
      rw [stackedNodes_concat, ← entered.stacked state isState]
      by_cases native : node.type = .native
      · by_cases same : detachedness node.id = state
        · rw [if_pos ⟨native, same⟩, same]
          exact DOMState.processNode_stack native notVisited isState
        · rw [if_neg fun both => same both.2]
          exact DOMState.processNode_otherStack native notVisited (Ne.symm same)
      · rw [if_neg fun both => native both.1, DOMState.processNode,
          if_neg notVisited, if_pos native]
        cases state <;> rfl

theorem entered_of_nodup (detachedness : Nat → DetachedNessState) (nodes : List HeapNode) :
    (nodes.map HeapNode.id).Nodup → Entered detachedness nodes
      (nodes.foldl DOMState.processKnown (.initial detachedness)) := by
  induction nodes using List.reverseRecOn with
  | nil =>
    intro _
    constructor
    case unchanged => rfl
    case visited =>
      intro id
      simp [DOMState.initial]
    case stacked =>
      intro state _
      cases state <;> rfl
  | append_singleton nodes node ih =>
    intro distinct
    rw [map_append, nodup_append] at distinct
    rw [foldl_append]
    apply (ih distinct.1).next
    intro member
    exact distinct.2.2 node.id member node.id (by simp) rfl

section Known

variable (snapshot : HeapSnapshot) (detachedness : Nat → DetachedNessState)

theorem processKnownNodes_entered :
    Entered detachedness snapshot.nodes (snapshot.processKnownNodes (.initial detachedness)) :=
  entered_of_nodup detachedness snapshot.nodes snapshot.distinct

theorem mem_stackedNodes_iff (state : DetachedNessState) (id : Nat) :
    id ∈ stackedNodes detachedness state snapshot.nodes ↔
      id ∈ snapshot.nativeWith detachedness state := by
  simp only [stackedNodes, mem_reverse, mem_map, mem_filter, Bool.and_eq_true, beq_iff_eq]
  constructor
  · rintro ⟨node, ⟨member, native, same⟩, rfl⟩
    exact ⟨(isNative_id_iff member).2 native, same⟩
  · rintro ⟨isNative, same⟩
    rcases exists_of_isNative isNative with ⟨node, member, rfl, native⟩
    exact ⟨node, ⟨member, native, same⟩, rfl⟩

theorem length_stackedNodes_le {state : DetachedNessState} (isState : state ≠ .unknown) :
    (stackedNodes detachedness state snapshot.nodes).length +
      snapshot.countUnknown detachedness ≤ snapshot.nodeCount := by
  rw [stackedNodes, length_reverse, length_map, ← countP_eq_length_filter, countUnknown, nodeCount]
  induction snapshot.nodes with
  | nil => simp
  | cons node nodes ih =>
    rw [countP_cons, countP_cons, length_cons]
    by_cases isStacked : detachedness node.id = state
    · by_cases native : node.type = .native <;> simp [native, isStacked, isState] <;> omega
    · by_cases native : node.type = .native ∧ detachedness node.id = .unknown
      · simp [native.1, native.2, Ne.symm isState]
        omega
      · simp [isStacked, native]
        omega

end Known

/-! ## Both loops -/

section Distribute

variable (snapshot : HeapSnapshot) (detachedness : Nat → DetachedNessState)

/-- A native node is reached from an attached one through native nodes without a state. -/
def ReachedFromAttached (id : Nat) : Prop :=
  ReachedFrom (snapshot.LeadsToUnknown detachedness) (snapshot.nativeWith detachedness .attached) id

/-- An edge to a native node without a state that does not get `ATTACHED`. -/
def LeadsToLeft (id following : Nat) : Prop :=
  snapshot.LeadsToUnknown detachedness id following ∧
    ¬ snapshot.ReachedFromAttached detachedness following

/-- A native node is reached from a detached one through such nodes. -/
def ReachedFromDetached (id : Nat) : Prop :=
  ReachedFrom (snapshot.LeadsToLeft detachedness) (snapshot.nativeWith detachedness .detached) id

def afterAttached : DOMState :=
  snapshot.propagate .attached snapshot.nodeCount
    (snapshot.processKnownNodes (.initial detachedness))

theorem known_processKnownNodes :
    snapshot.Known (snapshot.processKnownNodes (.initial detachedness)) := by
  have entered := snapshot.processKnownNodes_entered detachedness
  intro id native
  rcases exists_of_isNative native with ⟨node, member, rfl, _⟩
  rw [entered.visited, entered.unchanged]
  constructor
  · exact And.right
  · intro isSet
    exact ⟨mem_map_of_mem member, isSet⟩

theorem afterAttached_spec :
    Propagating snapshot .attached (snapshot.processKnownNodes (.initial detachedness))
      (snapshot.afterAttached detachedness) ∧
      (snapshot.afterAttached detachedness).stack .attached = [] := by
  have entered := snapshot.processKnownNodes_entered detachedness
  have isState : DetachedNessState.attached ≠ .unknown := by decide
  have stacked := entered.stacked .attached isState
  apply propagate_spec isState (snapshot.known_processKnownNodes detachedness)
  · intro id
    rw [stacked, entered.unchanged]
    exact snapshot.mem_stackedNodes_iff detachedness .attached id
  · rw [stacked, entered.unchanged]
    exact snapshot.length_stackedNodes_le detachedness isState

theorem afterAttached_states (id : Nat) :
    (snapshot.afterAttached detachedness).detachedness id = detachedness id ∨
      (id ∈ snapshot.nativeWith detachedness .unknown ∧
        (snapshot.afterAttached detachedness).detachedness id = .attached) := by
  have states := (snapshot.afterAttached_spec detachedness).1.states id
  rw [(snapshot.processKnownNodes_entered detachedness).unchanged] at states
  exact states

theorem afterAttached_iff {id : Nat} (native : snapshot.IsNative id) :
    (snapshot.afterAttached detachedness).detachedness id = .attached ↔
      snapshot.ReachedFromAttached detachedness id := by
  have spec := snapshot.afterAttached_spec detachedness
  have reached := spec.1.detachedness_iff spec.2 native
  rw [(snapshot.processKnownNodes_entered detachedness).unchanged] at reached
  exact reached

theorem nativeWith_afterAttached_detached :
    snapshot.nativeWith (snapshot.afterAttached detachedness).detachedness
      .detached = snapshot.nativeWith detachedness .detached := by
  ext id
  apply and_congr_right
  intro _
  rcases snapshot.afterAttached_states detachedness id with
    same | ⟨⟨_, isUnknown⟩, isAttached⟩
  · rw [same]
  · simp [isUnknown, isAttached]

theorem mem_nativeWith_afterAttached_unknown (id : Nat) :
    id ∈ snapshot.nativeWith (snapshot.afterAttached detachedness).detachedness .unknown ↔
      id ∈ snapshot.nativeWith detachedness .unknown ∧
        ¬ snapshot.ReachedFromAttached detachedness id := by
  constructor
  · rintro ⟨native, isUnknown⟩
    rw [← snapshot.afterAttached_iff detachedness native, isUnknown]
    rcases snapshot.afterAttached_states detachedness id with
      same | ⟨_, isAttached⟩
    · exact ⟨⟨native, same.symm.trans isUnknown⟩, by decide⟩
    · rw [isAttached] at isUnknown
      cases isUnknown
  · rintro ⟨⟨native, isUnknown⟩, notReached⟩
    rw [← snapshot.afterAttached_iff detachedness native] at notReached
    rcases snapshot.afterAttached_states detachedness id with
      same | ⟨_, isAttached⟩
    · exact ⟨native, same.trans isUnknown⟩
    · exact absurd isAttached notReached

theorem leadsToUnknown_afterAttached :
    snapshot.LeadsToUnknown (snapshot.afterAttached detachedness).detachedness =
      snapshot.LeadsToLeft detachedness := by
  ext id following
  rw [LeadsToLeft, LeadsToUnknown, LeadsToUnknown, and_assoc,
    snapshot.mem_nativeWith_afterAttached_unknown]

theorem distributeDOMState_spec :
    Propagating snapshot .detached (snapshot.afterAttached detachedness)
      (snapshot.distributeDOMState detachedness) ∧
      (snapshot.distributeDOMState detachedness).stack .detached = [] := by
  have entered := snapshot.processKnownNodes_entered detachedness
  have before := (snapshot.afterAttached_spec detachedness).1
  have isState : DetachedNessState.detached ≠ .unknown := by decide
  have stacked : (snapshot.afterAttached detachedness).stack .detached =
    stackedNodes detachedness .detached snapshot.nodes := by
    rw [before.others .detached (by decide)]
    exact entered.stacked .detached isState
  apply propagate_spec isState before.known
  · intro id
    rw [stacked, snapshot.nativeWith_afterAttached_detached detachedness]
    exact snapshot.mem_stackedNodes_iff detachedness .detached id
  · rw [stacked]
    have bound := snapshot.length_stackedNodes_le detachedness isState
    have fewer := before.fewer
    rw [entered.unchanged] at fewer
    omega

theorem distributeDOMState_detached_iff {id : Nat} (native : snapshot.IsNative id) :
    (snapshot.distributeDOMState detachedness).detachedness id = .detached ↔
      snapshot.ReachedFromDetached detachedness id := by
  have spec := snapshot.distributeDOMState_spec detachedness
  have reached := spec.1.detachedness_iff spec.2 native
  rw [leadsToUnknown_afterAttached, nativeWith_afterAttached_detached] at reached
  exact reached

theorem distributeDOMState_attached_iff {id : Nat} (native : snapshot.IsNative id) :
    (snapshot.distributeDOMState detachedness).detachedness id = .attached ↔
      snapshot.ReachedFromAttached detachedness id := by
  rw [← snapshot.afterAttached_iff detachedness native]
  rcases (snapshot.distributeDOMState_spec detachedness).1.states id with
    same | ⟨⟨_, isUnknown⟩, isDetached⟩
  · rw [same]
  · rw [isDetached, isUnknown]
    decide

theorem distributeDOMState_kept {id : Nat} (isSet : detachedness id ≠ .unknown) :
    (snapshot.distributeDOMState detachedness).detachedness id = detachedness id := by
  have first : (snapshot.afterAttached detachedness).detachedness id = detachedness id := by
    rcases snapshot.afterAttached_states detachedness id with
      same | ⟨⟨_, isUnknown⟩, _⟩
    · exact same
    · exact absurd isUnknown isSet
  rcases (snapshot.distributeDOMState_spec detachedness).1.states id with
    same | ⟨⟨_, isUnknown⟩, _⟩
  · exact same.trans first
  · exact absurd (first.symm.trans isUnknown) isSet

end Distribute

/-! ## Orders of nodes and edges -/

/-- The nodes of a snapshot in some order, each with its edges in some order. -/
def Reordered (snapshot other : HeapSnapshot) : Prop :=
  ∃ reorder : HeapNode → List HeapEdge,
    (∀ node ∈ snapshot.nodes, (reorder node).Perm node.edges) ∧ other.nodes.Perm
      (snapshot.nodes.map fun node => { node with edges := reorder node })

theorem get_eq_some_iff {id : Nat} {node : HeapNode} :
    snapshot.get id = some node ↔ node ∈ snapshot.nodes ∧ node.id = id := by
  constructor
  · intro found
    exact ⟨mem_of_get found, id_of_get found⟩
  · rintro ⟨member, rfl⟩
    exact get_id member

namespace Reordered

variable {other : HeapSnapshot}

section

variable (reordered : snapshot.Reordered other)
include reordered

theorem exists_get_iff (id : Nat) (holds : NodeType → List HeapEdge → Prop)
    (unordered : ∀ {type edges others}, edges.Perm others →
      (holds type edges ↔ holds type others)) :
    (∃ node, other.get id = some node ∧ holds node.type node.edges) ↔
      ∃ node, snapshot.get id = some node ∧ holds node.type node.edges := by
  rcases reordered with ⟨reorder, edges, nodes⟩
  simp only [get_eq_some_iff, nodes.mem_iff, mem_map]
  constructor
  · rintro ⟨_, ⟨⟨node, member, rfl⟩, same⟩, isHeld⟩
    exact ⟨node, ⟨member, same⟩, (unordered (edges node member)).1 isHeld⟩
  · rintro ⟨node, ⟨member, same⟩, isHeld⟩
    exact ⟨_, ⟨⟨node, member, rfl⟩, same⟩, (unordered (edges node member)).2 isHeld⟩

theorem isNative_iff (id : Nat) : other.IsNative id ↔ snapshot.IsNative id :=
  reordered.exists_get_iff id (fun type _ => type = .native) fun _ => Iff.rfl

theorem leadsTo_iff (id following : Nat) :
    other.LeadsTo id following ↔ snapshot.LeadsTo id following := by
  apply reordered.exists_get_iff id (fun _ edges =>
    ∃ edge ∈ edges, edge.isFiltered = false ∧ edge.toNodeId = following)
  intro _ edges others same
  simp only [same.mem_iff]

theorem nativeWith_eq (detachedness : Nat → DetachedNessState) (state : DetachedNessState) :
    other.nativeWith detachedness state = snapshot.nativeWith detachedness state := by
  ext id
  exact and_congr_left' (reordered.isNative_iff id)

theorem leadsToUnknown_eq (detachedness : Nat → DetachedNessState) :
    other.LeadsToUnknown detachedness = snapshot.LeadsToUnknown detachedness := by
  ext id following
  rw [LeadsToUnknown, LeadsToUnknown, reordered.leadsTo_iff, reordered.nativeWith_eq]

theorem reachedFromAttached_iff (detachedness : Nat → DetachedNessState) (id : Nat) :
    other.ReachedFromAttached detachedness id ↔ snapshot.ReachedFromAttached detachedness id := by
  rw [ReachedFromAttached, ReachedFromAttached, reordered.leadsToUnknown_eq,
    reordered.nativeWith_eq]

theorem reachedFromDetached_iff (detachedness : Nat → DetachedNessState) (id : Nat) :
    other.ReachedFromDetached detachedness id ↔ snapshot.ReachedFromDetached detachedness id := by
  have leads : other.LeadsToLeft detachedness = snapshot.LeadsToLeft detachedness := by
    ext before following
    rw [LeadsToLeft, LeadsToLeft, reordered.leadsToUnknown_eq, reordered.reachedFromAttached_iff]
  rw [ReachedFromDetached, ReachedFromDetached, leads, reordered.nativeWith_eq]

end

end Reordered

section States

variable (snapshot : HeapSnapshot) (detachedness : Nat → DetachedNessState)

theorem not_reachedFromAttached {id : Nat} (isUnknown : detachedness id = .unknown)
    (reached : snapshot.ReachedFromDetached detachedness id) :
    ¬ snapshot.ReachedFromAttached detachedness id := by
  rcases reached.mem_or_leads with ⟨_, isDetached⟩ | ⟨_, _, notReached⟩
  · rw [isUnknown] at isDetached
    cases isDetached
  · exact notReached

theorem distributeDOMState_same {id : Nat} (notNative : ¬ snapshot.IsNative id) :
    (snapshot.distributeDOMState detachedness).detachedness id = detachedness id := by
  rcases (snapshot.distributeDOMState_spec detachedness).1.states id with
    same | ⟨⟨native, _⟩, _⟩
  · rw [same]
    rcases snapshot.afterAttached_states detachedness id with
      first | ⟨⟨native, _⟩, _⟩
    · exact first
    · exact absurd native notNative
  · exact absurd native notNative

theorem DetachedNessState.eq_of_iff {state other : DetachedNessState}
    (attached : state = .attached ↔ other = .attached)
    (detached : state = .detached ↔ other = .detached) : state = other := by
  cases state <;> cases other <;> simp_all

theorem distributeDOMState_reordered {other : HeapSnapshot} (reordered : snapshot.Reordered other) :
    (other.distributeDOMState detachedness).detachedness =
      (snapshot.distributeDOMState detachedness).detachedness := by
  ext id
  by_cases native : snapshot.IsNative id
  · have otherNative := (reordered.isNative_iff id).2 native
    apply DetachedNessState.eq_of_iff
    · rw [other.distributeDOMState_attached_iff detachedness otherNative,
        snapshot.distributeDOMState_attached_iff detachedness native]
      exact reordered.reachedFromAttached_iff detachedness id
    · rw [other.distributeDOMState_detached_iff detachedness otherNative,
        snapshot.distributeDOMState_detached_iff detachedness native]
      exact reordered.reachedFromDetached_iff detachedness id
  · have otherNotNative := fun isNative =>
      native ((reordered.isNative_iff id).1 isNative)
    rw [other.distributeDOMState_same detachedness otherNotNative,
      snapshot.distributeDOMState_same detachedness native]

/--
A native node with a state keeps it.  One without gets `ATTACHED` where it is
reached from an attached native node, and otherwise `DETACHED` where it is
reached from a detached one through nodes that do not get `ATTACHED`, in any
order of the nodes and edges.
-/
theorem distributeDOMState_states : (∀ node ∈ snapshot.nodes, node.type = .native →
    let state := (snapshot.distributeDOMState detachedness).detachedness node.id
    (detachedness node.id ≠ .unknown → state = detachedness node.id) ∧
    (detachedness node.id = .unknown → (state = .attached ↔
      snapshot.ReachedFromAttached detachedness node.id) ∧
      (state = .detached ↔ ¬ snapshot.ReachedFromAttached detachedness node.id ∧
        snapshot.ReachedFromDetached detachedness node.id) ∧
      (state = .unknown ↔ ¬ snapshot.ReachedFromAttached detachedness node.id ∧
        ¬ snapshot.ReachedFromDetached detachedness node.id))) ∧
    ∀ other, snapshot.Reordered other → (other.distributeDOMState detachedness).detachedness =
      (snapshot.distributeDOMState detachedness).detachedness := by
  constructor
  · intro node member native state
    have isNative := (isNative_id_iff member).2 native
    have attached : state = .attached ↔ _ :=
      snapshot.distributeDOMState_attached_iff detachedness isNative
    have detached : state = .detached ↔ _ :=
      snapshot.distributeDOMState_detached_iff detachedness isNative
    constructor
    · exact snapshot.distributeDOMState_kept detachedness
    · intro isUnknown
      have apart := snapshot.not_reachedFromAttached detachedness isUnknown
      constructor
      · exact attached
      constructor
      · rw [detached]
        constructor
        · intro reached
          exact ⟨apart reached, reached⟩
        · exact And.right
      · rw [← attached, ← detached]
        cases state <;> decide
  · intro other reordered
    exact snapshot.distributeDOMState_reordered detachedness reordered

end States

end HeapSnapshot

end SysAnalyzer.JsHeap
