import SysAnalyzer.JsHeap.DistanceSearch

/-!
# When distances are shortest distances

The first search starts with one entry for every edge of the root to a user
root, so it is the number of these edges, not of the user roots, that has to fit
into the array with the other nodes it reaches.  The second search reaches no
more than the nodes of the snapshot.

The root gets its distance between the two searches, whether or not the first
one has reached it.
-/

namespace SysAnalyzer.JsHeap

open Foundation List Option

namespace HeapSnapshot

variable {snapshot : HeapSnapshot}

theorem seedEdge_eq (visit : Visit) (edge : HeapEdge) :
    snapshot.seedEdge visit edge = match snapshot.userRoot edge with
      | some id => visit.push id 1
      | none => visit := by
  unfold seedEdge userRoot
  cases snapshot.get edge.toNodeId with
  | none => rfl
  | some node =>
    dsimp only
    have same : (node.isUserRoot || node.isDocumentDOMTreesRoot) = node.isUserRoot := by
      unfold HeapNode.isUserRoot HeapNode.isDocumentDOMTreesRoot
      cases node.type != .synthetic <;> rfl
    rw [same]
    cases node.isUserRoot <;> rfl

/-- Some nodes are seeds, with a distance of 1. -/
structure Seeds (snapshot : HeapSnapshot) (ids : List Nat) (visit : Visit) :
    Prop where
  distance : ∀ id, visit.distance id = if id ∈ ids then 1 else -5
  counted : visit.nodesToVisitLen = ids.length
  size : visit.nodesToVisit.length = snapshot.nodeCount
  entries : ids.length ≤ snapshot.nodeCount → visit.queue = ids

theorem Seeds.push {ids : List Nat} {visit : Visit}
    (seeds : Seeds snapshot ids visit) {id : Nat} (small : id < 2 ^ 32) :
    Seeds snapshot (ids ++ [id]) (visit.push id 1) where
  distance := by
    intro other
    rw [Visit.push_distance]
    by_cases same : other = id
    · simp [same]
    · rw [Function.update_of_ne same, seeds.distance other]
      simp [same]
  counted := by
    rw [Visit.push_nodesToVisitLen, seeds.counted, length_append]
    rfl
  size := by rw [Visit.push_size, seeds.size]
  entries := by
    intro bound
    rw [length_append, length_singleton] at bound
    have room : visit.nodesToVisitLen < visit.nodesToVisit.length := by
      rw [seeds.counted, seeds.size]
      exact bound
    rw [Visit.push_queue 1 room small, seeds.entries (Nat.le_of_succ_le bound)]

theorem small_of_mem_userRoots {id : Nat} (member : id ∈ snapshot.userRoots) : id < 2 ^ 32 := by
  rcases mem_filterMap.1 member with ⟨edge, _, isRoot⟩
  unfold userRoot at isRoot
  cases found : snapshot.get edge.toNodeId with
  | none => simp [found] at isRoot
  | some node =>
    simp only [found, ite_none_right_eq_some, some.injEq] at isRoot
    rw [← isRoot.2, id_of_get found]
    exact small_of_get found

theorem seeds_seeded (snapshot : HeapSnapshot) :
    Seeds snapshot snapshot.userRoots snapshot.seeded := by
  have folded : snapshot.seeded = snapshot.userRoots.foldl (fun visit id => visit.push id 1)
    { distance := fun _ => -5
      nodesToVisit := replicate snapshot.nodeCount 0
      nodesToVisitLen := 0
      index := 0 } := by
    rw [userRoots, foldl_filterMap]
    refine foldl_ext _ _ _ ?_
    intro visit edge _
    rw [seedEdge_eq]
    cases snapshot.userRoot edge <;> rfl
  rw [folded]
  have small : ∀ id ∈ snapshot.userRoots, id < 2 ^ 32 := fun _ => small_of_mem_userRoots
  generalize snapshot.userRoots = ids at small
  induction ids using reverseRecOn with
  | nil => exact ⟨by simp, rfl, length_replicate, by simp [Visit.queue]⟩
  | append_singleton ids id induction =>
    rw [foldl_append]
    refine (induction ?_).push (small id (by simp))
    intro other member
    exact small other (mem_append_left _ member)

theorem rootDistance_eq :
    snapshot.rootDistance = if snapshot.userRoots = [] then 0 else baseSystemDistance := by
  unfold rootDistance
  rw [(seeds_seeded snapshot).counted]
  cases snapshot.userRoots <;> rfl

theorem rootDistance_nonneg : 0 ≤ snapshot.rootDistance := by
  unfold rootDistance baseSystemDistance
  split_ifs <;> decide

theorem bfs_seeded (snapshot : HeapSnapshot) :
    (snapshot.userRoots.length + (beyondSeeds snapshot.next snapshot.userRoots).ncard ≤
      snapshot.nodeCount ∧ ∃ last depth done, snapshot.bfs snapshot.seeded = .ok last ∧
      Searching snapshot.next snapshot.userRoots depth done [] ∧
      Follows snapshot (fun _ => false) 1 (fun _ => 0) last depth done) ∨
    (snapshot.nodeCount < snapshot.userRoots.length +
      (beyondSeeds snapshot.next snapshot.userRoots).ncard ∧
      ∃ message, snapshot.bfs snapshot.seeded = .error message) := by
  have seeds := seeds_seeded snapshot
  have bounded : Bounded snapshot.seeded := by
    intro id
    rw [seeds.distance id]
    split_ifs <;> decide
  have start : Follows snapshot (fun _ => false) 1 (fun _ => 0) snapshot.seeded
    (fun id => if id ∈ snapshot.userRoots then some 0 else none)
    snapshot.userRoots ∨ Overrun snapshot snapshot.userRoots (fun _ => false)
      snapshot.seeded := by
    by_cases bound : snapshot.userRoots.length ≤ snapshot.nodeCount
    · refine .inl ⟨?_, seeds.entries bound, seeds.counted, seeds.size⟩
      intro id
      rw [seeds.distance id]
      by_cases member : id ∈ snapshot.userRoots <;> simp [member]
    · have full := Nat.lt_of_not_le bound
      refine .inr ⟨?_, Nat.lt_of_lt_of_le full (Nat.le_add_right _ _)⟩
      rw [seeds.counted]
      exact full
  have cases := bfs_cases (by decide) (by simp) bounded start
  rwa [without_false] at cases

theorem ncard_beyond_root_lt (blocked : Nat → Bool) :
    [snapshot.rootNode.id].length + (beyondSeeds (without snapshot.next blocked)
      [snapshot.rootNode.id]).ncard ≤
      snapshot.nodeCount := by
  have included : beyondSeeds (without snapshot.next blocked) [snapshot.rootNode.id] ⊆
    ((snapshot.others.map HeapNode.id).toFinset : Set Nat) := by
    intro id beyond
    have member := beyondSeeds_subset_ids beyond
    rw [coe_toFinset] at member ⊢
    rcases mem_cons.1 member with isRoot | other
    · exact absurd (mem_singleton.2 isRoot) beyond.2
    · exact other
  have bound := Set.ncard_le_ncard included (Finset.finite_toSet _)
  rw [Set.ncard_coe_finset] at bound
  have fewer := toFinset_card_le (snapshot.others.map HeapNode.id)
  rw [length_map] at fewer
  rw [length_singleton, nodeCount, nodes, length_cons]
  omega

variable {depth : Nat → Option Nat}

theorem bfs_fromRoot {visited : Visit} {done : List Nat} (follows :
    Follows snapshot (fun _ => false) 1 (fun _ => 0) visited depth done) :
    ∃ last lastDepth lastDone, snapshot.bfs (snapshot.fromRoot visited) = .ok last ∧
      Searching (without snapshot.next fun id => (depth id).isSome)
        [snapshot.rootNode.id] lastDepth lastDone [] ∧
      Follows snapshot (fun id => (depth id).isSome) snapshot.rootDistance
        (fun id => 1 + depthOf depth id) last lastDepth lastDone := by
  have nonneg := snapshot.rootDistance_nonneg
  have small := small_of_get snapshot.get_root
  have start : Follows snapshot (fun id => (depth id).isSome) snapshot.rootDistance
    (fun id => 1 + depthOf depth id) (snapshot.fromRoot visited)
    (fun id => if id ∈ [snapshot.rootNode.id] then some 0 else none)
    [snapshot.rootNode.id] := by
    refine ⟨?_, ?_, rfl, ?_⟩
    · intro id
      by_cases isRoot : id = snapshot.rootNode.id
      · simp [fromRoot, isRoot]
      · have distance := follows.distance id
        simp only [fromRoot, Function.update_of_ne isRoot,
          mem_singleton, isRoot, if_false, distance]
        cases mark : depth id <;> simp [depthOf, mark]
    · have room : 0 < visited.nodesToVisit.length := by
        rw [follows.size]
        exact Nat.succ_pos _
      have shape := exists_cons_of_length_pos room
      rcases shape with ⟨entry, entries, shape⟩
      have entered : snapshot.rootNode.id % 2 ^ 32 = snapshot.rootNode.id := Nat.mod_eq_of_lt small
      simp only [Visit.queue, fromRoot, shape, entered]
      rfl
    · simp [fromRoot, follows.size]
  have bounded : Bounded (snapshot.fromRoot visited) := by
    refine start.bounded nonneg ?_
    intro id
    omega
  have keptSet : ∀ id, (depth id).isSome = true → 1 + (depthOf depth id : Int) ≠ -5 := by
    intro id _
    omega
  rcases bfs_cases nonneg keptSet bounded (.inl start) with
    ⟨_, ended⟩ | ⟨tooMany, _⟩
  · exact ended
  · exact absurd (ncard_beyond_root_lt _) (Nat.not_le_of_lt tooMany)

/-- What two searches that end leave behind. -/
structure Marked (snapshot : HeapSnapshot) (distance : Nat → Int) : Prop where
  user : ∀ id length, ShortestFrom snapshot.next snapshot.userRoots id length →
    id ≠ snapshot.rootNode.id → distance id = 1 + length
  system : ∀ id length, ¬ Reached snapshot.next snapshot.userRoots id →
    ShortestFrom snapshot.next [snapshot.rootNode.id] id length →
    distance id = snapshot.rootDistance + length
  root : distance snapshot.rootNode.id = snapshot.rootDistance

theorem marked_of_searching {last : Visit} {lastDepth : Nat → Option Nat} {done lastDone : List Nat}
    (first : Searching snapshot.next snapshot.userRoots depth done []) (second :
      Searching (without snapshot.next fun id => (depth id).isSome)
        [snapshot.rootNode.id] lastDepth lastDone []) (follows :
      Follows snapshot (fun id => (depth id).isSome) snapshot.rootDistance
        (fun id => 1 + depthOf depth id) last lastDepth lastDone) :
    Marked snapshot last.distance := by
  have closed : ∀ id, (depth id).isSome = true →
    ∀ following ∈ snapshot.next id, (depth following).isSome = true := by
    intro id isMarked following leads
    rcases isSome_iff_exists.1 isMarked with ⟨length, mark⟩
    have isDone := (first.marked id).1 ⟨length, mark⟩
    rw [append_nil] at isDone
    rcases first.expanded id isDone following leads with ⟨_, followingMark, _⟩
    rw [followingMark]
    rfl
  have rootMark : lastDepth snapshot.rootNode.id = some 0 := second.start _ (mem_singleton_self _)
  refine { user := ?_, system := ?_, root := ?_ }
  · intro id length shortest notRoot
    have mark := first.depth_eq_some_iff.2 shortest
    have unmarked : lastDepth id = none := by
      rw [second.depth_eq_none_iff]
      intro reached
      have free := blocked_of_mem_beyondSeeds
        ⟨reached, fun isRoot => notRoot (mem_singleton.1 isRoot)⟩
      rw [mark] at free
      cases free
    rw [follows.distance id, unmarked]
    simp [mark, depthOf]
  · intro id length notReached shortest
    have unmarked := first.depth_eq_none_iff.2 notReached
    have free : (depth id).isSome = false := by rw [unmarked]; rfl
    have mark := second.depth_eq_some_iff.2 ((shortestFrom_without_iff closed free).2 shortest)
    rw [follows.distance id, mark]
  · rw [follows.distance, rootMark]
    simp

theorem calDistances_cases (snapshot : HeapSnapshot) :
    (snapshot.userRoots.length + (beyondSeeds snapshot.next snapshot.userRoots).ncard ≤
      snapshot.nodeCount ∧
      ∃ distance, snapshot.calDistances = .ok distance ∧ Marked snapshot distance) ∨
    (snapshot.nodeCount < snapshot.userRoots.length +
      (beyondSeeds snapshot.next snapshot.userRoots).ncard ∧
      ∃ message, snapshot.calDistances = .error message) := by
  rcases snapshot.bfs_seeded with
    ⟨fits, visited, depth, done, ran, searching, follows⟩ | ⟨tooMany, message, thrown⟩
  · rcases bfs_fromRoot follows with
      ⟨last, lastDepth, lastDone, ranLast, lastSearching, lastFollows⟩
    refine .inl ⟨fits, last.distance, ?_, ?_⟩
    · unfold calDistances
      rw [ran]
      change (do
        let last ← snapshot.bfs (snapshot.fromRoot visited)
        return last.distance) = _
      rw [ranLast]
      rfl
    · exact marked_of_searching searching lastSearching lastFollows
  · refine .inr ⟨tooMany, message, ?_⟩
    simp only [calDistances, thrown]
    rfl

/-- Distances are shortest distances just where every edge of the root to a user
root fits into the array with all other nodes that are reached, and the root is
not reached from a user root, or by chance at the distance it gets. -/
theorem calDistances_shortest_iff (snapshot : HeapSnapshot) :
    (∃ distance, snapshot.calDistances = .ok distance ∧ snapshot.ShortestDistances distance) ↔
    snapshot.userRoots.length + (beyondSeeds snapshot.next snapshot.userRoots).ncard ≤
      snapshot.nodeCount ∧
      ∀ length, ShortestFrom snapshot.next snapshot.userRoots snapshot.rootNode.id length →
        1 + (length : Int) = baseSystemDistance := by
  constructor
  · rintro ⟨distance, ran, shortest⟩
    rcases snapshot.calDistances_cases with
      ⟨fits, marks, ranMarks, marked⟩ | ⟨_, message, thrown⟩
    · refine ⟨fits, ?_⟩
      intro length toRoot
      have same : distance = marks := by
        rw [ran] at ranMarks
        exact Except.ok.inj ranMarks
      have rooted : snapshot.userRoots ≠ [] := by
        rcases toRoot.1 with ⟨seed, isSeed, _⟩
        exact ne_nil_of_mem isSeed
      rw [← shortest.user _ length toRoot, same, marked.root, rootDistance_eq, if_neg rooted]
    · rw [ran] at thrown
      cases thrown
  · rintro ⟨fits, toRoot⟩
    rcases snapshot.calDistances_cases with
      ⟨_, distance, ran, marked⟩ | ⟨tooMany, _⟩
    · refine ⟨distance, ran, ?_, ?_⟩
      · intro id length shortest
        by_cases isRoot : id = snapshot.rootNode.id
        · subst isRoot
          have rooted : snapshot.userRoots ≠ [] := by
            rcases shortest.1 with ⟨seed, isSeed, _⟩
            exact ne_nil_of_mem isSeed
          rw [toRoot length shortest, marked.root, rootDistance_eq, if_neg rooted]
        · exact marked.user id length shortest isRoot
      · rw [← rootDistance_eq]
        exact marked.system
    · exact absurd fits (Nat.not_le_of_lt tooMany)

def threeEdges : HeapSnapshot where
  rootNode :=
    { type := .synthetic
      name := ""
      id := 1
      edges := [⟨.shortcut, "global", 3⟩, ⟨.element, "1", 3⟩, ⟨.element, "2", 3⟩] }
  others := [{ type := .object, name := "Window", id := 3, edges := [] }]
  distinct := by decide
  small := by decide

theorem calDistances_threeEdges : ¬ ∃ distance, threeEdges.calDistances = .ok distance ∧
    threeEdges.ShortestDistances distance := by
  have thrown : threeEdges.calDistances =
    .error "BFS failed. Nodes to visit 3 is more than nodes count 2" := by
    rfl
  rintro ⟨distance, ran, _⟩
  rw [thrown] at ran
  cases ran

end HeapSnapshot

end SysAnalyzer.JsHeap
