import SysAnalyzer.JsHeap.Distances

/-!
# The searches for distances

Within the array a search keeps `Searching` of the breadth-first library, with
the depths above a base and the nodes of an earlier search left out.  Once more
entries are counted than the array has, they are never fewer again, and the
search throws.
-/

namespace SysAnalyzer.JsHeap

open Foundation List Function

namespace Visit

/-- The entries that are in use. -/
def queue (visit : Visit) : List Nat := visit.nodesToVisit.take visit.nodesToVisitLen

@[simp]
theorem push_index (visit : Visit) (id : Nat) (distance : Int) :
    (visit.push id distance).index = visit.index := rfl

@[simp]
theorem push_nodesToVisitLen (visit : Visit) (id : Nat) (distance : Int) :
    (visit.push id distance).nodesToVisitLen = visit.nodesToVisitLen + 1 := rfl

@[simp]
theorem push_distance (visit : Visit) (id : Nat) (distance : Int) :
    (visit.push id distance).distance = Function.update visit.distance id distance := rfl

@[simp]
theorem push_size (visit : Visit) (id : Nat) (distance : Int) :
    (visit.push id distance).nodesToVisit.length = visit.nodesToVisit.length :=
  length_set

theorem push_queue {visit : Visit} {id : Nat} (distance : Int)
    (room : visit.nodesToVisitLen < visit.nodesToVisit.length) (small : id < 2 ^ 32) :
    (visit.push id distance).queue = visit.queue ++ [id] := by
  have inRange : visit.nodesToVisitLen <
    (visit.nodesToVisit.set visit.nodesToVisitLen id).length := by
    rw [length_set]
    exact room
  simp only [queue, push, Nat.mod_eq_of_lt small]
  rw [take_succ_eq_append_getElem inRange, getElem_set_self, take_set_of_le (Nat.le_refl _)]

end Visit

namespace HeapSnapshot

variable {snapshot : HeapSnapshot}

variable {node : HeapNode}

theorem accepts_of_get {childNode : HeapNode} {edge : HeapEdge}
    (found : snapshot.get edge.toNodeId = some childNode) :
    snapshot.accepts node edge = (edge.type != .weak && filterForBpf node edge) := by
  simp [accepts, found]

variable {visit : Visit}

theorem visitEdge_skip {distance : Int} {edge : HeapEdge} (skipped :
    snapshot.accepts node edge = false ∨ visit.distance edge.toNodeId ≠ -5) :
    snapshot.visitEdge node distance visit edge = visit := by
  unfold visitEdge
  by_cases weak : edge.type = .weak
  · rw [if_pos weak]
  · rw [if_neg weak]
    cases found : snapshot.get edge.toNodeId with
    | none => rfl
    | some childNode =>
      refine if_pos ?_
      rw [id_of_get found]
      rw [accepts_of_get found] at skipped
      rcases skipped with refused | isSet
      · right
        simpa [weak] using refused
      · exact .inl isSet

theorem visitEdge_push {distance : Int}
    {edge : HeapEdge} (accepted : snapshot.accepts node edge = true)
    (unset : visit.distance edge.toNodeId = -5) :
    snapshot.visitEdge node distance visit edge = visit.push edge.toNodeId distance := by
  cases found : snapshot.get edge.toNodeId with
  | none => simp [accepts, found] at accepted
  | some childNode =>
    rw [accepts_of_get found, Bool.and_eq_true] at accepted
    rcases accepted with ⟨notWeak, filtered⟩
    have strong : edge.type ≠ .weak := by simpa using notWeak
    simp [visitEdge, strong, found, id_of_get found, unset, filtered]

theorem visitEdge_cases (snapshot : HeapSnapshot) (node : HeapNode)
    (distance : Int) (visit : Visit) (edge : HeapEdge) :
    snapshot.visitEdge node distance visit edge = visit ∨
      ((snapshot.get edge.toNodeId).isSome = true ∧ visit.distance edge.toNodeId = -5 ∧
        snapshot.visitEdge node distance visit edge = visit.push edge.toNodeId distance) := by
  cases accepted : snapshot.accepts node edge with
  | false => exact .inl (visitEdge_skip (.inl accepted))
  | true =>
    by_cases unset : visit.distance edge.toNodeId = -5
    · refine .inr ⟨?_, unset, visitEdge_push accepted unset⟩
      simp only [accepts, Bool.and_eq_true] at accepted
      exact accepted.1.2
    · exact .inl (visitEdge_skip (.inr unset))

theorem mem_next_iff {id following : Nat} (found : snapshot.get id = some node) :
    following ∈ snapshot.next id ↔ ∃ edge ∈ node.edges, snapshot.accepts node edge = true ∧
      edge.toNodeId = following := by
  simp [next, found, and_assoc]

theorem get_of_mem_next {id following : Nat} (leads : following ∈ snapshot.next id) :
    (snapshot.get following).isSome = true := by
  cases found : snapshot.get id with
  | none => simp [next, found] at leads
  | some node =>
    rcases (mem_next_iff found).1 leads with ⟨edge, _, accepted, rfl⟩
    simp only [accepts, Bool.and_eq_true] at accepted
    exact accepted.1.2

theorem small_of_isSome {id : Nat} (present : (snapshot.get id).isSome = true) : id < 2 ^ 32 := by
  rcases Option.isSome_iff_exists.1 present with ⟨node, found⟩
  exact small_of_get found

def ids (snapshot : HeapSnapshot) : List Nat := snapshot.nodes.map HeapNode.id

theorem mem_ids_of_isSome {id : Nat}
    (present : (snapshot.get id).isSome = true) : id ∈ snapshot.ids := by
  rcases Option.isSome_iff_exists.1 present with ⟨node, found⟩
  rw [← id_of_get found]
  exact mem_map_of_mem (mem_of_get found)

/-! ## The rounds of a search -/

/-- The number of nodes without a distance. -/
def unset (snapshot : HeapSnapshot) (visit : Visit) : Nat :=
  snapshot.nodes.countP fun node => visit.distance node.id == -5

theorem unset_push_lt {id : Nat} {distance : Int} (present : (snapshot.get id).isSome = true)
    (isUnset : visit.distance id = -5) (isSet : distance ≠ -5) :
    snapshot.unset (visit.push id distance) < snapshot.unset visit := by
  have weaker : ∀ node : HeapNode, ((visit.push id distance).distance node.id == -5) =
    (node.id != id && visit.distance node.id == -5) := by
    intro node
    by_cases same : node.id = id
    · simp [same, isSet]
    · simp [same]
  have filtered : snapshot.unset (visit.push id distance) =
    ((snapshot.nodes.filter fun node => visit.distance node.id == -5).filter
      fun node => node.id != id).length := by
    rw [unset, countP_eq_length_filter, filter_filter]
    simp only [weaker]
  rw [filtered, unset, countP_eq_length_filter, length_filter_lt_length_iff_exists]
  rcases Option.isSome_iff_exists.1 present with ⟨node, found⟩
  refine ⟨node, mem_filter.2 ⟨mem_of_get found, ?_⟩, ?_⟩
  · rw [id_of_get found]
    simp [isUnset]
  · simp [id_of_get found]

/-- No distance is below the one that says there is none. -/
def Bounded (visit : Visit) : Prop := ∀ id, -5 ≤ visit.distance id

theorem Bounded.push (bounded : Bounded visit) (id : Nat) {distance : Int} (bound : -5 ≤ distance) :
    Bounded (visit.push id distance) := by
  intro other
  rw [Visit.push_distance]
  by_cases same : other = id
  · rw [same, update_self]
    exact bound
  · rw [update_of_ne same]
    exact bounded other

/-- What a part of a search keeps, and what it uses up. -/
structure Progress (snapshot : HeapSnapshot) (before after : Visit) : Prop where
  bounded : Bounded before → Bounded after
  grows : before.nodesToVisitLen ≤ after.nodesToVisitLen
  spends : after.nodesToVisitLen + snapshot.unset after ≤
    before.nodesToVisitLen + snapshot.unset before

theorem Progress.refl (visit : Visit) : Progress snapshot visit visit :=
  ⟨id, le_refl _, le_refl _⟩

theorem Progress.trans {first second third : Visit} (before : Progress snapshot first second)
    (after : Progress snapshot second third) : Progress snapshot first third where
  bounded := after.bounded ∘ before.bounded
  grows := before.grows.trans after.grows
  spends := after.spends.trans before.spends

theorem progress_advance (visit : Visit) : Progress snapshot visit visit.advance :=
  ⟨id, le_refl _, le_refl _⟩

theorem progress_visitEdge (node : HeapNode) {distance : Int}
    (bound : -5 < distance) (visit : Visit) (edge : HeapEdge) :
    Progress snapshot visit (snapshot.visitEdge node distance visit edge) := by
  rcases snapshot.visitEdge_cases node distance visit edge with
    same | ⟨present, isUnset, pushed⟩
  · rw [same]
    exact .refl visit
  · rw [pushed]
    refine ⟨fun bounded => bounded.push _ (le_of_lt bound), Nat.le_succ _, ?_⟩
    have fewer := unset_push_lt present isUnset (ne_of_gt bound)
    rw [Visit.push_nodesToVisitLen]
    omega

theorem progress_visitEdges (node : HeapNode) {distance : Int}
    (bound : -5 < distance) (edges : List HeapEdge) (visit : Visit) :
    Progress snapshot visit (edges.foldl (snapshot.visitEdge node distance) visit) := by
  induction edges generalizing visit with
  | nil => exact .refl visit
  | cons edge edges induction =>
    exact (progress_visitEdge node bound visit edge).trans (induction _)

theorem visitNext_skip (absent : ∀ nodeId ∈ visit.nodesToVisit[visit.index]?,
    snapshot.get nodeId = none) : snapshot.visitNext visit = visit.advance := by
  unfold visitNext
  cases entry : visit.nodesToVisit[visit.index]? with
  | none => rfl
  | some nodeId => simp [absent nodeId entry]

theorem visitNext_node {nodeId : Nat} (entry : visit.nodesToVisit[visit.index]? = some nodeId)
    (found : snapshot.get nodeId = some node) : snapshot.visitNext visit = node.edges.foldl
      (snapshot.visitEdge node (visit.distance nodeId + 1))
      visit.advance := by
  simp only [visitNext, entry, found, id_of_get found]

theorem visitNext_cases (snapshot : HeapSnapshot) (visit : Visit) :
    snapshot.visitNext visit = visit.advance ∨
      ∃ (nodeId : Nat) (node : HeapNode), snapshot.visitNext visit =
        node.edges.foldl (snapshot.visitEdge node (visit.distance nodeId + 1)) visit.advance := by
  cases entry : visit.nodesToVisit[visit.index]? with
  | none => exact .inl (visitNext_skip (by simp [entry]))
  | some nodeId =>
    cases found : snapshot.get nodeId with
    | none => exact .inl (visitNext_skip (by simp [entry, found]))
    | some node => exact .inr ⟨nodeId, node, visitNext_node entry found⟩

theorem progress_visitNext (snapshot : HeapSnapshot) (bounded : Bounded visit) :
    Progress snapshot visit (snapshot.visitNext visit) := by
  rcases snapshot.visitNext_cases visit with skipped | ⟨nodeId, node, visited⟩
  · rw [skipped]
    exact progress_advance visit
  · rw [visited]
    have bound : -5 < visit.distance nodeId + 1 := Int.lt_add_one_iff.2 (bounded nodeId)
    exact (progress_advance visit).trans (progress_visitEdges node bound node.edges visit.advance)

theorem foldl_visitEdge_index (node : HeapNode) (distance : Int)
    (edges : List HeapEdge) (visit : Visit) :
    (edges.foldl (snapshot.visitEdge node distance) visit).index = visit.index := by
  induction edges generalizing visit with
  | nil => rfl
  | cons edge edges induction =>
    rw [foldl_cons, induction]
    rcases snapshot.visitEdge_cases node distance visit edge with
      same | ⟨_, _, pushed⟩
    · rw [same]
    · rw [pushed, Visit.push_index]

@[simp]
theorem visitNext_index (visit : Visit) : (snapshot.visitNext visit).index = visit.index + 1 := by
  rcases snapshot.visitNext_cases visit with skipped | ⟨nodeId, node, visited⟩
  · rw [skipped]
    rfl
  · rw [visited]
    exact foldl_visitEdge_index _ _ _ _

theorem visitAll_finished (snapshot : HeapSnapshot) (rounds : Nat)
    (bounded : Bounded visit) (enough :
      visit.nodesToVisitLen + snapshot.unset visit ≤ visit.index + rounds) :
    (snapshot.visitAll rounds visit).nodesToVisitLen ≤ (snapshot.visitAll rounds visit).index := by
  induction rounds generalizing visit with
  | zero => exact Nat.le_trans (Nat.le_add_right _ _) enough
  | succ rounds induction =>
    unfold visitAll
    by_cases more : visit.index < visit.nodesToVisitLen
    · rw [if_pos more]
      have progress := snapshot.progress_visitNext bounded
      refine induction (progress.bounded bounded) ?_
      rw [visitNext_index]
      exact le_trans progress.spends (by omega)
    · rw [if_neg more]
      exact Nat.le_of_not_lt more

/-! ## A search within the array -/

section Search

variable {seeds : List Nat} {blocked : Nat → Bool} {base : Int}
  {kept : Nat → Int}

/-- The distances are the depths above a base, and the array is the queue. -/
structure Follows (snapshot : HeapSnapshot) (blocked : Nat → Bool)
    (base : Int) (kept : Nat → Int) (visit : Visit)
    (depth : Nat → Option Nat) (queue : List Nat) : Prop where
  distance : ∀ id, visit.distance id = match depth id with
    | some length => base + length
    | none => if blocked id then kept id else -5
  entries : visit.queue = queue
  counted : visit.nodesToVisitLen = queue.length
  size : visit.nodesToVisit.length = snapshot.nodeCount

/-- More entries have been counted than the array has. -/
structure Overrun (snapshot : HeapSnapshot) (seeds : List Nat)
    (blocked : Nat → Bool) (visit : Visit) : Prop where
  counted : snapshot.nodeCount < visit.nodesToVisitLen
  reached : snapshot.nodeCount <
    seeds.length + (beyondSeeds (without snapshot.next blocked) seeds).ncard

theorem Overrun.progress {before after : Visit} (overrun : Overrun snapshot seeds blocked before)
    (progress : Progress snapshot before after) : Overrun snapshot seeds blocked after :=
  ⟨lt_of_lt_of_le overrun.counted progress.grows, overrun.reached⟩

variable {visit : Visit} {depth : Nat → Option Nat}

theorem Follows.counted_le {queue : List Nat}
    (follows : Follows snapshot blocked base kept visit depth queue) :
    queue.length ≤ snapshot.nodeCount := by
  rw [← follows.entries, ← follows.size, Visit.queue, length_take]
  exact min_le_right _ _

theorem beyondSeeds_subset_ids :
    beyondSeeds (without snapshot.next blocked) seeds ⊆ (snapshot.ids.toFinset : Set Nat) := by
  intro id beyond
  rcases exists_leads_of_mem_beyondSeeds beyond with ⟨before, leads⟩
  rw [coe_toFinset]
  exact mem_ids_of_isSome (get_of_mem_next (mem_of_mem_filter leads))

theorem finite_beyondSeeds : (beyondSeeds (without snapshot.next blocked) seeds).Finite :=
  (Finset.finite_toSet _).subset beyondSeeds_subset_ids

theorem Follows.push {queue : List Nat}
    (follows : Follows snapshot blocked base kept visit depth queue)
    {id : Nat} (level : Nat) (small : id < 2 ^ 32)
    (room : visit.nodesToVisitLen < snapshot.nodeCount) :
    Follows snapshot blocked base kept (visit.push id (base + level + 1))
      (Function.update depth id (some (level + 1))) (queue ++ [id]) where
  distance := by
    intro other
    rw [Visit.push_distance]
    by_cases equal : other = id
    · subst equal
      rw [update_self, update_self]
      push_cast
      ring
    · rw [update_of_ne equal, update_of_ne equal]
      exact follows.distance other
  entries := by
    rw [← follows.size] at room
    rw [Visit.push_queue _ room small, follows.entries]
  counted := by
    rw [Visit.push_nodesToVisitLen, follows.counted, length_append]
    rfl
  size := by rw [Visit.push_size, follows.size]

/-- While the edges of a node are followed. -/
def Scanning (snapshot : HeapSnapshot) (seeds : List Nat)
    (blocked : Nat → Bool) (base : Int) (kept : Nat → Int)
    (done : List Nat) (first level : Nat) (node : HeapNode)
    (scanned : List HeapEdge) (visit : Visit) : Prop :=
  ∃ depth pending seen, Expanding (without snapshot.next blocked) seeds depth done first pending
    seen ∧
    depthOf depth first = level ∧
    Follows snapshot blocked base kept visit depth (done ++ first :: pending) ∧
    ∀ edge ∈ scanned, snapshot.accepts node edge = true →
      blocked edge.toNodeId = false → edge.toNodeId ∈ seen

variable (nonneg : 0 ≤ base)
  (keptSet : ∀ id, blocked id = true → kept id ≠ -5)

include nonneg keptSet

theorem Follows.unset_iff {queue : List Nat}
    (follows : Follows snapshot blocked base kept visit depth queue) {id : Nat} :
    visit.distance id = -5 ↔ depth id = none ∧ blocked id = false := by
  rw [follows.distance id]
  cases depth id with
  | some length =>
    have positive : base + (length : Int) ≠ -5 := by omega
    simp [positive]
  | none =>
    cases isBlocked : blocked id with
    | true => simp [keptSet id isBlocked]
    | false => simp

omit keptSet in
theorem Follows.bounded {queue : List Nat}
    (follows : Follows snapshot blocked base kept visit depth queue)
    (keptBound : ∀ id, -5 ≤ kept id) : Bounded visit := by
  intro id
  rw [follows.distance id]
  cases depth id with
  | some length =>
    have positive : -5 ≤ base + (length : Int) := by omega
    exact positive
  | none =>
    dsimp only
    split_ifs
    · exact keptBound id
    · exact le_refl _

variable {done : List Nat}

theorem Scanning.edge {first level : Nat} {node : HeapNode} {scanned : List HeapEdge} (scanning :
    Scanning snapshot seeds blocked base kept done first level node scanned
      visit) (found : snapshot.get first = some node)
    {edge : HeapEdge} (ofNode : edge ∈ node.edges) :
    Scanning snapshot seeds blocked base kept done first level node (edge :: scanned)
      (snapshot.visitEdge node (base + level + 1) visit edge) ∨
      Overrun snapshot seeds blocked (snapshot.visitEdge node (base + level + 1) visit edge) := by
  rcases scanning with ⟨depth, pending, seen, expanding, same, follows, covers⟩
  cases accepted : snapshot.accepts node edge with
  | false =>
    rw [visitEdge_skip (.inl accepted)]
    refine .inl ⟨depth, pending, seen, expanding, same, follows, ?_⟩
    refine forall_mem_cons.2 ⟨?_, covers⟩
    simp [accepted]
  | true =>
    by_cases isUnset : visit.distance edge.toNodeId = -5
    · rw [visitEdge_push accepted isUnset]
      rcases (follows.unset_iff nonneg keptSet).1 isUnset with
        ⟨isNew, free⟩
      have leadsTo : edge.toNodeId ∈ snapshot.next first :=
        (mem_next_iff found).2 ⟨edge, ofNode, accepted, rfl⟩
      have leads : edge.toNodeId ∈ without snapshot.next blocked first :=
        mem_filter.2 ⟨leadsTo, by simp [free]⟩
      have discovered := expanding.discover leads isNew
      rw [same] at discovered
      by_cases room : visit.nodesToVisitLen < snapshot.nodeCount
      · have small := small_of_isSome (get_of_mem_next leadsTo)
        have pushed := follows.push level small room
        rw [append_assoc, cons_append] at pushed
        refine .inl ⟨_, _, _, discovered, ?_, pushed, ?_⟩
        · rcases expanding.exists_mark with ⟨length, mark⟩
          have different : first ≠ edge.toNodeId := by
            rintro equal
            rw [← equal, mark] at isNew
            cases isNew
          rw [depthOf, update_of_ne different]
          exact same
        · refine forall_mem_cons.2 ⟨fun _ _ => mem_cons_self, ?_⟩
          intro other before accepts isFree
          exact mem_cons_of_mem _ (covers other before accepts isFree)
      · have full : snapshot.nodeCount < visit.nodesToVisitLen + 1 :=
          Nat.lt_succ_of_le (Nat.le_of_not_lt room)
        refine .inr ⟨full, lt_of_lt_of_le full ?_⟩
        rw [follows.counted]
        simpa [add_assoc] using discovered.toMarking.length_le finite_beyondSeeds
    · rw [visitEdge_skip (.inr isUnset)]
      refine .inl ⟨depth, pending, ?_⟩
      cases free : blocked edge.toNodeId with
      | true =>
        refine ⟨seen, expanding, same, follows, ?_⟩
        refine forall_mem_cons.2 ⟨?_, covers⟩
        simp [free]
      | false =>
        have marked : ∃ length, depth edge.toNodeId = some length := by
          rw [← Option.ne_none_iff_exists']
          intro isNone
          exact isUnset ((follows.unset_iff nonneg keptSet).2 ⟨isNone, free⟩)
        refine ⟨edge.toNodeId :: seen, expanding.skip marked, same, follows, ?_⟩
        refine forall_mem_cons.2 ⟨fun _ _ => mem_cons_self, ?_⟩
        intro other before accepts isFree
        exact mem_cons_of_mem _ (covers other before accepts isFree)

theorem Scanning.edges {first level : Nat} {node : HeapNode}
    (found : snapshot.get first = some node) (edges : List HeapEdge)
    (ofNode : ∀ edge ∈ edges, edge ∈ node.edges) {scanned : List HeapEdge}
    (scanning : Scanning snapshot seeds blocked base kept done first level node scanned visit) :
    let last := edges.foldl (snapshot.visitEdge node (base + level + 1)) visit
    Scanning snapshot seeds blocked base kept done first level node
      (edges.reverse ++ scanned) last ∨
      Overrun snapshot seeds blocked last := by
  induction edges generalizing scanned visit with
  | nil => exact .inl scanning
  | cons edge edges induction =>
    rw [foldl_cons, reverse_cons, append_assoc]
    rw [forall_mem_cons] at ofNode
    rcases scanning.edge nonneg keptSet found ofNode.1 with
      continued | overrun
    · exact induction ofNode.2 continued
    · have bound : -5 < base + (level : Int) + 1 := by omega
      exact .inr (overrun.progress (progress_visitEdges node bound edges _))

omit nonneg keptSet in
/-- The rounds of a search, with the entries taken so far. -/
structure Searches (snapshot : HeapSnapshot) (seeds : List Nat)
    (blocked : Nat → Bool) (base : Int) (kept : Nat → Int) (visit : Visit)
    (depth : Nat → Option Nat) (done pending : List Nat) : Prop where
  searching : Searching (without snapshot.next blocked) seeds depth done pending
  follows : Follows snapshot blocked base kept visit depth (done ++ pending)
  index : visit.index = done.length

omit nonneg keptSet in
theorem Searches.entry {pending : List Nat} {first : Nat} (searches :
    Searches snapshot seeds blocked base kept visit depth done (first :: pending)) :
    visit.nodesToVisit[visit.index]? = some first := by
  have entries := congrArg (fun queue => queue[done.length]?) searches.follows.entries
  have within : done.length < visit.nodesToVisitLen := by
    rw [searches.follows.counted]
    simp
  rw [searches.index]
  simpa [Visit.queue, getElem?_take, within] using entries

theorem Searches.round {pending : List Nat} {first : Nat} (searches :
    Searches snapshot seeds blocked base kept visit depth done (first :: pending)) :
    (∃ depth pending, Searches snapshot seeds blocked base kept (snapshot.visitNext visit)
      depth (done ++ [first]) pending) ∨
      Overrun snapshot seeds blocked (snapshot.visitNext visit) := by
  have index : (snapshot.visitNext visit).index = (done ++ [first]).length := by
    rw [visitNext_index, searches.index, length_append]
    rfl
  have follows := searches.follows
  cases found : snapshot.get first with
  | none =>
    have skipped : snapshot.visitNext visit = visit.advance :=
      visitNext_skip (by simp [searches.entry, found])
    refine .inl ⟨depth, pending, ?_, ?_, index⟩
    · refine searches.searching.expand.finish ?_
      simp [without, next, found]
    · rw [skipped, append_assoc]
      exact ⟨follows.distance, follows.entries, follows.counted, follows.size⟩
  | some node =>
    have expanding := searches.searching.expand
    rcases expanding.exists_mark with ⟨level, mark⟩
    have distance : visit.distance first = base + level := by rw [follows.distance first, mark]
    have start : Scanning snapshot seeds blocked base kept done first level node [] visit.advance :=
      ⟨depth, pending, [], expanding, depthOf_eq mark,
        ⟨follows.distance, follows.entries, follows.counted, follows.size⟩,
        by simp⟩
    have visited := visitNext_node searches.entry found
    rw [distance] at visited
    rcases start.edges nonneg keptSet found node.edges (fun _ => id) with
      ⟨lastDepth, lastPending, seen, last, _, lastFollows, covers⟩ | overrun
    · rw [← visited] at lastFollows
      refine .inl ⟨lastDepth, lastPending, ?_, ?_, index⟩
      · refine last.finish ?_
        intro following leads
        rw [without, mem_filter, mem_next_iff found] at leads
        rcases leads with ⟨⟨edge, ofNode, accepted, rfl⟩, free⟩
        exact covers edge (by simpa using ofNode) accepted (by simpa using free)
      · rw [append_assoc]
        exact lastFollows
    · rw [← visited] at overrun
      exact .inr overrun

theorem searches_visitAll (rounds : Nat) (bounded : Bounded visit) (searches :
    (∃ depth done pending, Searches snapshot seeds blocked base kept visit depth done pending) ∨
      Overrun snapshot seeds blocked visit) :
    (∃ depth done pending, Searches snapshot seeds blocked base kept
      (snapshot.visitAll rounds visit) depth done pending) ∨
      Overrun snapshot seeds blocked (snapshot.visitAll rounds visit) := by
  induction rounds generalizing visit with
  | zero => exact searches
  | succ rounds induction =>
    unfold visitAll
    by_cases more : visit.index < visit.nodesToVisitLen
    · rw [if_pos more]
      have progress := snapshot.progress_visitNext bounded
      refine induction (progress.bounded bounded) ?_
      rcases searches with ⟨depth, done, pending, searches⟩ | overrun
      · cases pending with
        | nil =>
          rw [searches.follows.counted, searches.index, append_nil] at more
          exact absurd more (lt_irrefl _)
        | cons first pending =>
          rcases searches.round nonneg keptSet with
            ⟨nextDepth, nextPending, continued⟩ | overrun
          · exact .inl ⟨nextDepth, _, nextPending, continued⟩
          · exact .inr overrun
      · exact .inr (overrun.progress progress)
    · rw [if_neg more]
      exact searches

/-- A search throws just where it reaches more than the array has entries;
otherwise it ends with all marks. -/
theorem bfs_cases (bounded : Bounded visit) (start : Follows snapshot blocked base kept visit
    (fun id => if id ∈ seeds then some 0 else none) seeds ∨
    Overrun snapshot seeds blocked visit) :
    (seeds.length + (beyondSeeds (without snapshot.next blocked) seeds).ncard ≤ snapshot.nodeCount ∧
      ∃ last depth done, snapshot.bfs visit = .ok last ∧
        Searching (without snapshot.next blocked) seeds depth done [] ∧
        Follows snapshot blocked base kept last depth done) ∨
    (snapshot.nodeCount < seeds.length + (beyondSeeds (without snapshot.next blocked) seeds).ncard ∧
      ∃ message, snapshot.bfs visit = .error message) := by
  have first : (∃ depth done pending,
    Searches snapshot seeds blocked base kept { visit with index := 0 } depth done pending) ∨
    Overrun snapshot seeds blocked { visit with index := 0 } := by
    rcases start with follows | overrun
    · refine .inl ⟨_, [], seeds, searching_start _ seeds, ?_, rfl⟩
      exact ⟨follows.distance, follows.entries, follows.counted, follows.size⟩
    · exact .inr ⟨overrun.counted, overrun.reached⟩
  have begun : Bounded { visit with index := 0 } := bounded
  have finished := snapshot.visitAll_finished (visit.nodesToVisitLen + snapshot.nodeCount) begun (by
    rw [zero_add]
    exact Nat.add_le_add_left countP_le_length _)
  rcases searches_visitAll nonneg keptSet
    (visit.nodesToVisitLen + snapshot.nodeCount) begun first with
    ⟨depth, done, pending, searches⟩ | overrun
  · have follows := searches.follows
    have nothing : pending = [] := by
      rw [follows.counted, searches.index, length_append] at finished
      exact length_eq_zero_iff.1 (by omega)
    subst nothing
    rw [append_nil] at follows
    have bound := follows.counted_le
    rw [searches.searching.length_done] at bound
    refine .inl ⟨bound, _, depth, done, ?_, searches.searching, follows⟩
    refine if_neg ?_
    rw [follows.counted]
    exact Nat.not_lt_of_le follows.counted_le
  · refine .inr ⟨overrun.reached, _, if_pos overrun.counted⟩

end Search

end HeapSnapshot

end SysAnalyzer.JsHeap
